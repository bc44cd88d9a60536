/-
Whether the inputs of a generation describe one closure.

The constructor ties its inputs together in three ways. Most facts of a package
are compared field by field between the lock and the graph. The exact Git source
is compared through the source key of the object, whose request has the candidate
of the graph by its identity; so it is bound short of a collision. The token of a
path package and the two projections are not compared with anything: of the
runtime projection only the number of its packages is.
-/
import LeanBun.Generation.Vendored
import LeanBun.Resolver.Identity

set_option autoImplicit false

namespace LeanBun.Generation

open LeanBun.Lib LeanBun.Core LeanBun.Lock LeanBun.Bridge LeanBun.Resolver LeanBun.Store

/-! ## One closure -/

/-- The exact sources are one: URL, revision and subdirectory, or path token. -/
def exact_sources_agree : LeanExactSourceV1 → ResolvedPackageSourceV1 → Prop
  | .Git url exact_revision subdir _ _, .Git locked_url locked_revision locked_subdir _ _ =>
    url = locked_url ∧ exact_revision = locked_revision ∧ subdir = locked_subdir
  | .Path portable_path_token _ _, .PathSnapshot locked_token _ => portable_path_token = locked_token
  | _, _ => False

/-- The source of an entry without what only the manifest has. -/
def written_exact : ProjectionSource → (Str × Str × Option Str) ⊕ Str
  | .Git url rev _ subdir => Sum.inl (url, rev, subdir)
  | .Path dir => Sum.inr dir

/-- The same of a locked source. -/
def locked_exact : ResolvedPackageSourceV1 → (Str × Str × Option Str) ⊕ Str
  | .Git url exact_revision subdir _ _ => Sum.inl (url.value, exact_revision, subdir)
  | .PathSnapshot portable_path_token _ => Sum.inr portable_path_token

/-- The package directories of the runtime projection are the final paths of the
decisions. -/
def RuntimeOf (decisions : PackagePathDecisionSetV1) (runtime : LakeRuntimePackagesProjectionV1) :
    Prop :=
  runtime.entries.map (fun entry => (entry.scope, entry.name, entry.dir)) =
    decisions.decisions.map fun decision =>
      (decision.package.scope, decision.package.name, some decision.final_path)

/-- The sources of the manifest projection are the locked ones. -/
def ManifestOf (lock : LeanBunLockV1) (manifest : LakeManifestProjectionV1) : Prop :=
  manifest.entries.map (fun entry => (entry.scope, entry.name, written_exact entry.source)) =
    lock.packages.map fun package =>
      (package.key.scope, package.key.name, locked_exact package.resolved)

/-- The four values of one package agree. -/
structure PackageAgrees (graph : LeanResolutionGraphV1) (locked : LockedLeanPackageV1)
    (resolved : LeanResolvedPackageV1) (decision : PackagePathDecisionV1)
    (object : VerifiedPackageObjectV1) : Prop where
  keys : resolved.key = locked.key ∧ decision.package = locked.key ∧ object.package = locked.key
  source : exact_sources_agree resolved.candidate.resolved locked.resolved
  dependencies : same_keys locked.dependencies resolved.dependencies
  integrity : resolved.candidate.download_integrity = locked.download_integrity
  config : resolved.candidate.config_sha256 = locked.config_sha256
  manifest : resolved.candidate.manifest_sha256 = locked.manifest_sha256
  selected : resolved.candidate.selected_source_identity = locked.selected_source_identity
  trees : resolved.candidate.source_tree_sha256 = locked.source_tree_sha256 ∧
    object.source_tree_sha256 = locked.source_tree_sha256 ∧
    decision.source_tree_sha256 = locked.source_tree_sha256
  fetched : object.request.candidate = resolved.candidate
  decided : decision.store_object_sha256 = object.store_object_sha256 ∧
    decision.generation = graph.identity

/-- **One closure.** Every locked package has its resolution, its decision and its
object, nothing else has one, and both projections were made from them. -/
structure OneClosure (lock : LeanBunLockV1) (graph : LeanResolutionGraphV1)
    (decisions : PackagePathDecisionSetV1) (manifest : LakeManifestProjectionV1)
    (runtime : LakeRuntimePackagesProjectionV1) (objects : List VerifiedPackageObjectV1) : Prop where
  roots : roots_agree lock graph
  packages : ∀ locked ∈ lock.packages, ∃ resolved ∈ graph.packages,
    ∃ decision ∈ decisions.decisions, ∃ object ∈ objects,
      PackageAgrees graph locked resolved decision object
  resolved_keys : ∀ resolved ∈ graph.packages, ∃ locked ∈ lock.packages, resolved.key = locked.key
  decided_keys : ∀ decision ∈ decisions.decisions, ∃ locked ∈ lock.packages,
    decision.package = locked.key
  object_keys : ∀ object ∈ objects, ∃ locked ∈ lock.packages, object.package = locked.key
  runtime_directories : RuntimeOf decisions runtime
  manifest_sources : ManifestOf lock manifest

/-! ## What the digests are trusted for -/

/-- No two of the strings that the constructor compares by digest collide: the
candidates of the objects and of the graph, and the Git sources of the lock and of
the graph. -/
structure CollisionFree (lock : LeanBunLockV1) (graph : LeanResolutionGraphV1)
    (objects : List VerifiedPackageObjectV1) : Prop where
  candidates : ∀ object ∈ objects, ∀ resolved ∈ graph.packages,
    NoCollision (candidate_bytes object.request.candidate) (candidate_bytes resolved.candidate)
  sources : ∀ locked ∈ lock.packages, ∀ resolved ∈ graph.packages,
    ∀ url exact_revision subdir hrev hsub url' exact_revision' subdir' hrev' hsub',
      resolved.candidate.resolved = .Git url exact_revision subdir hrev hsub →
      locked.resolved = .Git url' exact_revision' subdir' hrev' hsub' →
      NoCollision
        (hash_git_bytes url exact_revision subdir resolved.candidate.source_tree_sha256)
        (hash_git_bytes url' exact_revision' subdir' locked.source_tree_sha256)

/-- Path packages have one token in the lock and in the graph. -/
def PathTokensAgree (lock : LeanBunLockV1) (graph : LeanResolutionGraphV1) : Prop :=
  ∀ locked ∈ lock.packages, ∀ resolved ∈ graph.packages, resolved.key = locked.key →
    ∀ token identity htoken locked_token hlocked,
      resolved.candidate.resolved = .Path token identity htoken →
      locked.resolved = .PathSnapshot locked_token hlocked → token = locked_token

/-! ## From the checks -/

/-- **The source of a package.** If the object was fetched for the candidate and
its source key is that of the locked package, the exact Git sources are one; for a
path package only the kind is known. -/
theorem exact_sources_of_key {locked : LockedLeanPackageV1} {candidate : LeanPackageCandidateV1}
    {key : Option PackageSourceKeyV1}
    (hkey : exact_source_key candidate.resolved candidate.source_tree_sha256 = .ok key)
    (hlocked : key = PackageSourceKeyV1.from_locked_package locked)
    (hfree : ∀ url exact_revision subdir hrev hsub url' exact_revision' subdir' hrev' hsub',
      candidate.resolved = .Git url exact_revision subdir hrev hsub →
      locked.resolved = .Git url' exact_revision' subdir' hrev' hsub' →
      NoCollision (hash_git_bytes url exact_revision subdir candidate.source_tree_sha256)
        (hash_git_bytes url' exact_revision' subdir' locked.source_tree_sha256))
    (htoken : ∀ token identity htoken locked_token hlocked,
      candidate.resolved = .Path token identity htoken →
      locked.resolved = .PathSnapshot locked_token hlocked → token = locked_token) :
    exact_sources_agree candidate.resolved locked.resolved := by
  unfold PackageSourceKeyV1.from_locked_package PackageSourceKeyV1.from_resolved_source at hlocked
  cases hcandidate : candidate.resolved with
  | Git url exact_revision subdir hrev hsub =>
    rw [hcandidate] at hkey
    obtain ⟨source_key, hfrom, hkey⟩ := bind_eq_ok.mp hkey
    cases hkey
    cases hresolved : locked.resolved with
    | Git url' exact_revision' subdir' hrev' hsub' =>
      rw [hresolved] at hlocked
      have hdigest := PackageSourceKeyV1.from_git_eq hfrom
      rw [Option.some.inj hlocked] at hdigest
      have hbytes := hfree _ _ _ _ _ _ _ _ _ _ hcandidate hresolved hdigest.symm
      obtain ⟨hurl, hrevision, hsubdir, -⟩ := hash_git_bytes_bind (valid_git_revision_short hrev)
        (valid_git_revision_short hrev')
        (fun v hv => Resolver.valid_relative_path_short (hsub v hv)) (fun v hv => by
          have hlength := valid_relative_path_length (hsub' v hv)
          simp only [ShortText, MAX_SUBDIR_BYTES] at hlength ⊢
          omega) hbytes
      exact ⟨hurl, hrevision, hsubdir⟩
    | PathSnapshot locked_token hvalid =>
      rw [hresolved] at hlocked
      cases hlocked
  | Path token identity hvalid =>
    rw [hcandidate] at hkey
    cases hkey
    cases hresolved : locked.resolved with
    | Git url' exact_revision' subdir' hrev' hsub' =>
      rw [hresolved] at hlocked
      cases hlocked
    | PathSnapshot locked_token hlocked' =>
      exact htoken _ _ _ _ _ hcandidate hresolved

section Accepted

variable {generation_root : PathBuf} {lock : LeanBunLockV1} {graph : LeanResolutionGraphV1}
  {decisions : PackagePathDecisionSetV1} {runtime : LakeRuntimePackagesProjectionV1}
  {objects : List VerifiedPackageObjectV1} {reservoir : Option ReservoirBindingDocumentV1}
  {placed : List (PackageKeyV1 × VerifiedPackageObjectV1)}

/-- The keys of the graph are distinct: it has those of the lock and no more
packages. -/
theorem Accepted.graph_keys_nodup
    (h : Accepted generation_root lock graph decisions runtime objects reservoir placed) :
    (graph.packages.map LeanResolvedPackageV1.key).Nodup := by
  have hlength : (graph.packages.map LeanResolvedPackageV1.key).length ≤
      (lock.packages.map LockedLeanPackageV1.key).length := by
    rw [List.length_map, List.length_map]
    exact le_of_eq h.counts.1.symm
  have hsub : lock.packages.map LockedLeanPackageV1.key ⊆
      graph.packages.map LeanResolvedPackageV1.key := fun key hkey => h.keys.2 key hkey
  have hnodup := lock.packages_sorted.nodup
  have hperm := (List.subperm_of_subset hnodup hsub).perm_of_length_le hlength
  exact hperm.nodup_iff.mp hnodup

/-- **One package.** What the checks and the agreement of path tokens give. -/
theorem Placed.agrees {pair : LockedLeanPackageV1 × PackagePathDecisionV1}
    {one : PackageKeyV1 × VerifiedPackageObjectV1}
    (h : Placed generation_root graph objects pair one) (hlocked : pair.1 ∈ lock.packages)
    (hfree : CollisionFree lock graph objects) (htokens : PathTokensAgree lock graph) :
    ∃ resolved ∈ graph.packages, PackageAgrees graph pair.1 resolved pair.2 one.2 := by
  obtain ⟨resolved, hresolved, htree, hintegrity, hconfig, hmanifest, hselected, hdeps, hidentity,
    hkey⟩ := h.facts
  obtain ⟨hmem, hname⟩ := find_key_some hresolved
  obtain ⟨hobject_tree, hdecision_tree, hobject, hgeneration⟩ := h.object
  have hcandidate : one.2.request.candidate = resolved.candidate :=
    candidate_bytes_injective (hfree.candidates _ h.supplied _ hmem hidentity)
  have hsource := one.2.request.source_key
  rw [hcandidate] at hsource
  refine ⟨resolved, hmem, ⟨hname, h.decided.symm, h.package⟩, ?_, hdeps, hintegrity, hconfig,
    hmanifest, hselected, ⟨htree, hobject_tree, hdecision_tree.symm.trans hobject_tree⟩, hcandidate,
    hobject.symm, hgeneration⟩
  exact exact_sources_of_key hsource hkey (hfree.sources _ hlocked _ hmem)
    (htokens _ hlocked _ hmem hname)

/-- Every locked package has its decision and its object among those given. -/
theorem Accepted.pair_of_locked
    (h : Accepted generation_root lock graph decisions runtime objects reservoir placed)
    {locked : LockedLeanPackageV1} (hlocked : locked ∈ lock.packages) :
    ∃ decision ∈ decisions.decisions, ∃ one, Placed generation_root graph objects (locked, decision)
      one := by
  have hlength : lock.packages.length ≤ decisions.decisions.length := le_of_eq h.counts.2.1
  have hfst := List.map_fst_zip hlength
  rw [← hfst] at hlocked
  obtain ⟨⟨_, decision⟩, hpair, rfl⟩ := List.mem_map.mp hlocked
  obtain ⟨one, -, hone⟩ := forall₂_partner h.placed hpair
  exact ⟨decision, (List.of_mem_zip hpair).2, one, hone⟩

/-- Every decision is for a locked package. -/
theorem Accepted.decided_keys
    (h : Accepted generation_root lock graph decisions runtime objects reservoir placed) :
    ∀ decision ∈ decisions.decisions, ∃ locked ∈ lock.packages, decision.package = locked.key := by
  intro decision hdecision
  have hlength : decisions.decisions.length ≤ lock.packages.length := le_of_eq h.counts.2.1.symm
  have hsnd := List.map_snd_zip hlength
  rw [← hsnd] at hdecision
  obtain ⟨⟨locked, _⟩, hpair, rfl⟩ := List.mem_map.mp hdecision
  obtain ⟨one, -, hone⟩ := forall₂_partner h.placed hpair
  exact ⟨locked, (List.of_mem_zip hpair).1, hone.decided.symm⟩

/-- **The closure.** Accepted inputs describe one closure exactly when what the
checks leave out agrees as well. -/
theorem Accepted.one_closure_iff
    (h : Accepted generation_root lock graph decisions runtime objects reservoir placed)
    (hfree : CollisionFree lock graph objects) (manifest : LakeManifestProjectionV1) :
    OneClosure lock graph decisions manifest runtime objects ↔
      PathTokensAgree lock graph ∧ RuntimeOf decisions runtime ∧ ManifestOf lock manifest := by
  constructor
  · intro hclosure
    refine ⟨?_, hclosure.runtime_directories, hclosure.manifest_sources⟩
    intro locked hlocked resolved hresolved hkey token identity htoken locked_token hvalid hpath hsnapshot
    obtain ⟨found, hfound, _, _, _, _, hagrees⟩ := hclosure.packages locked hlocked
    have hsame : found = resolved := List.inj_on_of_nodup_map h.graph_keys_nodup hfound hresolved
      (hagrees.keys.1.trans hkey.symm)
    have hsource := hagrees.source
    rw [hsame, hpath, hsnapshot] at hsource
    exact hsource
  · rintro ⟨htokens, hruntime, hmanifest⟩
    refine ⟨h.roots, ?_, ?_, h.decided_keys, ?_, hruntime, hmanifest⟩
    · intro locked hlocked
      obtain ⟨decision, hdecision, one, hone⟩ := h.pair_of_locked hlocked
      obtain ⟨resolved, hresolved, hagrees⟩ := hone.agrees hlocked hfree htokens
      exact ⟨resolved, hresolved, decision, hdecision, one.2, hone.supplied, hagrees⟩
    · intro resolved hresolved
      obtain ⟨locked, hlocked, hkey⟩ :=
        List.mem_map.mp (h.keys.1 _ (List.mem_map.mpr ⟨resolved, hresolved, rfl⟩))
      exact ⟨locked, hlocked, hkey.symm⟩
    · intro object hobject
      obtain ⟨locked, hlocked, hkey⟩ := List.mem_map.mp (h.objects_taken object hobject)
      exact ⟨locked, hlocked, hkey.symm⟩

end Accepted

/-! ## Projections made for the closure -/

/-- An entry carries the name of its package and what was written for it. -/
theorem projection_entry_eq_ok {metadata : List LakePackageProjectionMetadataV1}
    {decisions : Option PackagePathDecisionSetV1} {runtime : Bool} {package : LockedLeanPackageV1}
    {entry : ProjectionEntry}
    (h : projection_entry metadata decisions runtime package = .ok entry) :
    entry.scope = package.key.scope ∧ entry.name = package.key.name ∧
      ∃ meta_, projection_source package meta_ decisions runtime = .ok entry.source := by
  unfold projection_entry at h
  split at h
  · cases h
  · next meta_ hmeta =>
    obtain ⟨source, hsource, h⟩ := bind_eq_ok.mp h
    cases h
    exact ⟨rfl, rfl, meta_, hsource⟩

/-- A runtime projection has the directories of the decisions it was made for. -/
theorem runtime_of_decisions {lock : LeanBunLockV1} {decisions : PackagePathDecisionSetV1}
    {metadata : List LakePackageProjectionMetadataV1} {runtime : LakeRuntimePackagesProjectionV1}
    (hkeys : decisions.decisions.map PackagePathDecisionV1.package =
      lock.packages.map LockedLeanPackageV1.key)
    (h : LakeRuntimePackagesProjectionV1.from_bun_decisions lock decisions metadata = .ok runtime) :
    RuntimeOf decisions runtime := by
  unfold LakeRuntimePackagesProjectionV1.from_bun_decisions at h
  obtain ⟨metadata', -, h⟩ := bind_eq_ok.mp h
  obtain ⟨_, -, h⟩ := bind_eq_ok.mp h
  obtain ⟨entries, hentries, h⟩ := bind_eq_ok.mp h
  cases h
  -- What the projection says of a key, in terms of the decision that is found.
  let said : PackageKeyV1 → Str × Str × Option Str := fun key =>
    (key.scope, key.name, (decisions.decisions.find? fun decision =>
      decide (decision.package = key)).map PackagePathDecisionV1.final_path)
  have hsaid : List.Forall₂ (fun package entry =>
      said package.key = (entry.scope, entry.name, entry.dir)) lock.packages entries := by
    refine (mapM_eq_ok_iff.mp hentries).imp fun package entry hentry => ?_
    obtain ⟨hscope, hname, meta_, hsource⟩ := projection_entry_eq_ok hentry
    unfold projection_source at hsource
    simp only [if_true] at hsource
    split at hsource
    · cases hsource
    · next decision hfind =>
      have hdir : entry.dir = some decision.final_path := by
        unfold ProjectionEntry.dir
        rw [← Except.ok.inj hsource]
      show (package.key.scope, package.key.name, (decisions.decisions.find? fun decision =>
        decide (decision.package = package.key)).map PackagePathDecisionV1.final_path) = _
      rw [hfind, hscope, hname, hdir]
      rfl
  have hdecision : ∀ decision ∈ decisions.decisions, said decision.package =
      (decision.package.scope, decision.package.name, some decision.final_path) := by
    intro decision hdecision
    show (_, _, Option.map _ (decisions.decisions.find? fun other =>
      decide (other.package = decision.package))) = _
    rw [find_key_of_mem decisions.decisions_sorted.nodup hdecision]
    rfl
  have hentries : lock.packages.map (fun package => said package.key) =
      entries.map fun entry => (entry.scope, entry.name, entry.dir) := by
    rw [← List.forall₂_eq_eq_eq, List.forall₂_map_left_iff, List.forall₂_map_right_iff]
    exact hsaid
  calc entries.map (fun entry => (entry.scope, entry.name, entry.dir))
      = (lock.packages.map LockedLeanPackageV1.key).map said := by
        rw [← hentries, List.map_map]
        rfl
    _ = decisions.decisions.map fun decision => said decision.package := by
        rw [← hkeys, List.map_map]
        rfl
    _ = _ := List.map_congr_left hdecision

/-- A manifest projection has the sources of the lock it was made for. -/
theorem manifest_of_lock {declaration : LakeRootDeclarationV1} {lock : LeanBunLockV1}
    {metadata : List LakePackageProjectionMetadataV1} {manifest : LakeManifestProjectionV1}
    (h : LakeManifestProjectionV1.new declaration lock metadata = .ok manifest) :
    ManifestOf lock manifest := by
  unfold LakeManifestProjectionV1.new at h
  obtain ⟨_, -, h⟩ := bind_eq_ok.mp h
  obtain ⟨metadata', -, h⟩ := bind_eq_ok.mp h
  obtain ⟨entries, hentries, h⟩ := bind_eq_ok.mp h
  cases h
  unfold ManifestOf
  rw [eq_comm, ← List.forall₂_eq_eq_eq, List.forall₂_map_left_iff, List.forall₂_map_right_iff]
  refine (mapM_eq_ok_iff.mp hentries).imp fun package entry hentry => ?_
  obtain ⟨hscope, hname, meta_, hsource⟩ := projection_entry_eq_ok hentry
  have hexact : locked_exact package.resolved = written_exact entry.source := by
    unfold projection_source at hsource
    rw [if_neg Bool.false_ne_true] at hsource
    cases hresolved : package.resolved with
    | Git url exact_revision subdir hrev hsub =>
      rw [hresolved] at hsource
      rw [← Except.ok.inj hsource]
      rfl
    | PathSnapshot portable_path_token hvalid =>
      rw [hresolved] at hsource
      rw [← Except.ok.inj hsource]
      rfl
  rw [hscope, hname, hexact]

/-! ## The constructor and the closure -/

/-- **Inputs of one closure.** Short of a collision, inputs that the constructor
accepts describe one closure exactly when the path packages have one token in the
lock and in the graph and the projections are those of the decisions and of the
lock. -/
theorem accepted_closure_iff {transaction_id : ExecutionId} {project_root generation_root : PathBuf}
    {lock : LeanBunLockV1} {graph : LeanResolutionGraphV1} {decisions : PackagePathDecisionSetV1}
    {manifest : LakeManifestProjectionV1} {runtime : LakeRuntimePackagesProjectionV1}
    {objects : List VerifiedPackageObjectV1} {reservoir : Option ReservoirBindingDocumentV1}
    {generation : LeanBunGenerationV1} (hfree : CollisionFree lock graph objects)
    (h : LeanBunGenerationV1.new_with_reservoir_bindings transaction_id project_root generation_root
      lock graph decisions manifest runtime objects reservoir = .ok generation) :
    OneClosure lock graph decisions manifest runtime objects ↔
      PathTokensAgree lock graph ∧ RuntimeOf decisions runtime ∧ ManifestOf lock manifest := by
  obtain ⟨placed, haccepted, -⟩ := accepted_of_ok h
  exact haccepted.one_closure_iff hfree manifest

/-! ## A vendored closure -/

def solo_lock : LeanBunLockV1 :=
  vendor_lock [solo_key] solo_sorted solo_counted solo_graph_valid

/-- The decisions for the lock under a generation root that is one directory. -/
def solo_decisions (graph : LeanResolutionGraphV1) (generation_root : PathBuf)
    (h : valid_contained_absolute_path generation_root
      (package_path generation_root solo_key.scope solo_key.name) = true) :
    PackagePathDecisionSetV1 :=
  vendor_decisions generation_root graph [solo_key] solo_sorted (by simpa using h)

def solo_objects (graph : LeanResolutionGraphV1) : List VerifiedPackageObjectV1 :=
  [solo_key].map (vendor_object graph)

/-- The closure is free of collisions: its object was fetched for the very
candidate, and it has no Git source. -/
theorem solo_collision_free {graph : LeanResolutionGraphV1}
    (hpackages : graph.packages = [⟨vendor_candidate solo_key, []⟩]) :
    CollisionFree solo_lock graph (solo_objects graph) where
  candidates := by
    intro object hobject resolved hresolved _
    rw [hpackages] at hresolved
    rw [List.mem_singleton.mp hobject, List.mem_singleton.mp hresolved]
    rfl
  sources := by
    intro locked _ resolved hresolved _ _ _ _ _ _ _ _ _ _ hgit
    rw [hpackages] at hresolved
    rw [List.mem_singleton.mp hresolved] at hgit
    cases hgit

/-- Its tokens agree. -/
theorem solo_tokens_agree {graph : LeanResolutionGraphV1}
    (hpackages : graph.packages = [⟨vendor_candidate solo_key, []⟩]) :
    PathTokensAgree solo_lock graph := by
  intro locked hlocked resolved hresolved _ token identity htoken locked_token hvalid hpath hsnapshot
  rw [hpackages] at hresolved
  rw [List.mem_singleton.mp hresolved] at hpath
  rw [List.mem_singleton.mp (show locked ∈ [vendor_locked solo_key] from hlocked)] at hsnapshot
  cases hpath
  cases hsnapshot
  rfl

/-- The constructor accepts it with any runtime projection of one package. -/
theorem solo_accepted {graph : LeanResolutionGraphV1}
    (hgraph : resolve_lean_dependencies_v1 (vendor_resolution [solo_key] solo_sorted
      solo_counted) ([solo_key].map vendor_candidate) = .ok graph)
    (hkeys : graph.packages.map LeanResolvedPackageV1.key = [solo_key])
    {runtime : LakeRuntimePackagesProjectionV1} (hcount : runtime.package_count = 1) :
    ∃ generation, LeanBunGenerationV1.new_with_reservoir_bindings vendor_transaction "/p".toList
      "/g".toList solo_lock graph (solo_decisions graph "/g".toList (by decide +kernel))
      (vendor_manifest [solo_key]) runtime (solo_objects graph) none = .ok generation := by
  have haccepted := vendor_accepted (by decide +kernel) hgraph hkeys
    (by decide +kernel : valid_absolute_path "/g".toList = true) (by decide +kernel) hcount
  obtain ⟨generation, hok, -⟩ := ok_of_accepted
    (by decide +kernel : valid_absolute_path "/p".toList = true) haccepted
  exact ⟨generation, hok⟩

/-- With its own projections it is one closure. -/
theorem accepted_closure_solo : ∃ graph generation,
    resolve_lean_dependencies_v1 (vendor_resolution [solo_key] solo_sorted
      solo_counted) ([solo_key].map vendor_candidate) = .ok graph ∧
    LeanBunGenerationV1.new_with_reservoir_bindings vendor_transaction "/p".toList "/g".toList
      solo_lock graph (solo_decisions graph "/g".toList (by decide +kernel))
      (vendor_manifest [solo_key]) (vendor_runtime "/g".toList [solo_key]) (solo_objects graph) none =
        .ok generation ∧
    OneClosure solo_lock graph (solo_decisions graph "/g".toList (by decide +kernel))
      (vendor_manifest [solo_key]) (vendor_runtime "/g".toList [solo_key]) (solo_objects graph) := by
  obtain ⟨graph, hgraph, hkeys⟩ := solo_key_resolves
  have hpackages := vendor_graph_packages hgraph hkeys
  obtain ⟨generation, hok⟩ := solo_accepted hgraph hkeys
    (show (vendor_runtime "/g".toList [solo_key]).package_count = 1 from rfl)
  refine ⟨graph, generation, hgraph, hok, (accepted_closure_iff (solo_collision_free hpackages) hok).mpr
    ⟨solo_tokens_agree hpackages, ?_, manifest_of_lock (vendor_manifest_ok (by decide +kernel))⟩⟩
  have hruntime : LakeRuntimePackagesProjectionV1.from_bun_decisions solo_lock
      (solo_decisions graph "/g".toList (by decide +kernel)) ([solo_key].map vendor_metadata) =
        .ok (vendor_runtime "/g".toList [solo_key]) :=
    vendor_runtime_ok (by decide +kernel) (by decide +kernel)
  exact runtime_of_decisions rfl hruntime

/-- **A projection of another closure.** The runtime projection was made for
decisions under another root, and the constructor accepts it. -/
theorem foreign_runtime_accepted : ∃ graph generation,
    resolve_lean_dependencies_v1 (vendor_resolution [solo_key] solo_sorted
      solo_counted) ([solo_key].map vendor_candidate) = .ok graph ∧
    LakeRuntimePackagesProjectionV1.from_bun_decisions solo_lock
      (solo_decisions graph "/other".toList (by decide +kernel)) ([solo_key].map vendor_metadata) =
        .ok (vendor_runtime "/other".toList [solo_key]) ∧
    CollisionFree solo_lock graph (solo_objects graph) ∧
    LeanBunGenerationV1.new_with_reservoir_bindings vendor_transaction "/p".toList "/g".toList
      solo_lock graph (solo_decisions graph "/g".toList (by decide +kernel))
      (vendor_manifest [solo_key]) (vendor_runtime "/other".toList [solo_key]) (solo_objects graph)
      none = .ok generation ∧
    ¬OneClosure solo_lock graph (solo_decisions graph "/g".toList (by decide +kernel))
      (vendor_manifest [solo_key]) (vendor_runtime "/other".toList [solo_key]) (solo_objects graph) := by
  obtain ⟨graph, hgraph, hkeys⟩ := solo_key_resolves
  obtain ⟨generation, hok⟩ := solo_accepted hgraph hkeys
    (show (vendor_runtime "/other".toList [solo_key]).package_count = 1 from rfl)
  refine ⟨graph, generation, hgraph, vendor_runtime_ok (by decide +kernel) (by decide +kernel),
    solo_collision_free (vendor_graph_packages hgraph hkeys), hok, fun hclosure => ?_⟩
  -- The directory of the entry is under `/other`, the final path under `/g`.
  have hdirectories := hclosure.runtime_directories
  unfold RuntimeOf at hdirectories
  have hpaths : package_path "/other".toList solo_key.scope solo_key.name =
      package_path "/g".toList solo_key.scope solo_key.name := by
    have hentry := (List.cons.inj hdirectories).1
    exact Option.some.inj (congrArg (fun entry => entry.2.2) hentry)
  exact absurd hpaths (by decide +kernel)

end LeanBun.Generation
