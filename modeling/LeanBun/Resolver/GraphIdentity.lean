/-
What the identity of a resolved graph binds.

The lists under the identity are counted and the origins tagged, so the bytes determine every
list. A package enters with its key, the identity of its candidate and its dependencies. The
counts are eight bytes wide; a resolution is far smaller than that.
-/
import LeanBun.Resolver.Identity
import LeanBun.Resolver.Update

set_option autoImplicit false

namespace LeanBun.Resolver

open LeanBun.Lib LeanBun.Core LeanBun.Lock LeanBun.Bridge

/-! ## Graphs that can be counted -/

/-- The index of an origin fits into eight bytes. -/
def OriginCounted : LeanResolutionOriginV1 → Prop
  | .Root declaration_index => declaration_index < 2 ^ 64
  | .Package _ declaration_index => declaration_index < 2 ^ 64

/-- What the identity has of a package. -/
structure BoundPackage where
  key : PackageKeyV1
  candidate_identity : Sha256
  dependencies : List PackageKeyV1
deriving DecidableEq

def LeanResolvedPackageV1.bound (package : LeanResolvedPackageV1) : BoundPackage :=
  ⟨package.key, package.candidate.identity, package.dependencies⟩

/-- Every list of a graph and every index in it can be counted in eight bytes. -/
structure GraphCounted (graph : LeanResolutionGraphV1) : Prop where
  packages : graph.packages.length < 2 ^ 64
  dependencies : ∀ package ∈ graph.packages, package.dependencies.length < 2 ^ 64
  root_packages : graph.root_packages.length < 2 ^ 64
  resolution_order : graph.resolution_order.length < 2 ^ 64
  impact_closure : graph.impact_closure.length < 2 ^ 64
  shadows : graph.shadows.length < 2 ^ 64
  origins : ∀ shadow ∈ graph.shadows, OriginCounted shadow.winner ∧ OriginCounted shadow.shadowed

/-- What `graph_identity` hashes of a graph. -/
def graph_preimage (graph : LeanResolutionGraphV1) : List UInt8 :=
  graph_identity_bytes graph.toolchain graph.root_declaration_identity graph.packages
    graph.root_packages graph.resolution_order graph.shadows graph.impact_closure

/-- Two results are the same, but for the candidates behind their identities. -/
structure SameResolution (a b : LeanResolutionGraphV1) : Prop where
  toolchain : a.toolchain = b.toolchain
  root : a.root_declaration_identity = b.root_declaration_identity
  packages : a.packages.map LeanResolvedPackageV1.bound = b.packages.map LeanResolvedPackageV1.bound
  root_packages : a.root_packages = b.root_packages
  resolution_order : a.resolution_order = b.resolution_order
  impact_closure : a.impact_closure = b.impact_closure
  shadows : a.shadows = b.shadows

/-! ## Delimited parts -/

theorem keys_delimited :
    Delimited (fun keys : List PackageKeyV1 => keys.length < 2 ^ 64) keys_bytes := by
  intro a b r s ha hb h
  simp only [keys_bytes, List.append_assoc] at h
  obtain ⟨hlength, h⟩ := be64_delimited _ _ _ _ ha hb h
  exact hash_key_delimited.flatMap hlength (fun _ _ => trivial) (fun _ _ => trivial) h

/-- What the identity hashes of a package. -/
def bound_package_bytes (package : BoundPackage) : List UInt8 :=
  hash_key_bytes package.key ++ (package.candidate_identity.bytes ++
    keys_bytes package.dependencies)

theorem bound_package_delimited :
    Delimited (fun package : BoundPackage => package.dependencies.length < 2 ^ 64)
      bound_package_bytes := by
  intro a b r s ha hb h
  simp only [bound_package_bytes, List.append_assoc] at h
  obtain ⟨hkey, h⟩ := hash_key_delimited _ _ _ _ trivial trivial h
  obtain ⟨hidentity, h⟩ := sha_bytes_delimited _ _ _ _ trivial trivial h
  obtain ⟨hdependencies, h⟩ := keys_delimited _ _ _ _ ha hb h
  refine ⟨?_, h⟩
  cases a
  cases b
  simp only [BoundPackage.mk.injEq]
  exact ⟨hkey, hidentity, hdependencies⟩

theorem origin_delimited : Delimited OriginCounted origin_bytes := by
  intro a b r s ha hb h
  cases a with
  | Root index =>
    cases b with
    | Root index' =>
      simp only [origin_bytes, List.cons_append, List.cons.injEq, true_and] at h
      obtain ⟨hindex, hrest⟩ := be64_delimited _ _ _ _ ha hb h
      exact ⟨by rw [hindex], hrest⟩
    | Package key index' =>
      simp only [origin_bytes, List.cons_append, List.cons.injEq] at h
      exact absurd h.1 (by decide)
  | Package key index =>
    cases b with
    | Root index' =>
      simp only [origin_bytes, List.cons_append, List.cons.injEq] at h
      exact absurd h.1 (by decide)
    | Package key' index' =>
      simp only [origin_bytes, List.cons_append, List.append_assoc, List.cons.injEq, true_and] at h
      obtain ⟨hkey, h⟩ := hash_key_delimited _ _ _ _ trivial trivial h
      obtain ⟨hindex, hrest⟩ := be64_delimited _ _ _ _ ha hb h
      exact ⟨by rw [hkey, hindex], hrest⟩

/-- What the identity hashes of a shadow. -/
def shadow_bytes (shadow : LeanShadowDecisionV1) : List UInt8 :=
  hash_key_bytes shadow.package ++ (shadow.selected_candidate.bytes ++
    (origin_bytes shadow.winner ++ origin_bytes shadow.shadowed))

theorem shadow_delimited :
    Delimited (fun shadow : LeanShadowDecisionV1 =>
      OriginCounted shadow.winner ∧ OriginCounted shadow.shadowed) shadow_bytes := by
  intro a b r s ha hb h
  simp only [shadow_bytes, List.append_assoc] at h
  obtain ⟨hpackage, h⟩ := hash_key_delimited _ _ _ _ trivial trivial h
  obtain ⟨hselected, h⟩ := sha_bytes_delimited _ _ _ _ trivial trivial h
  obtain ⟨hwinner, h⟩ := origin_delimited _ _ _ _ ha.1 hb.1 h
  obtain ⟨hshadowed, h⟩ := origin_delimited _ _ _ _ ha.2 hb.2 h
  refine ⟨?_, h⟩
  cases a
  cases b
  simp only [LeanShadowDecisionV1.mk.injEq]
  exact ⟨hpackage, hselected, hwinner, hshadowed⟩

/-- **The preimage determines the graph**, list by list. -/
theorem graph_preimage_binds {a b : LeanResolutionGraphV1} (ha : GraphCounted a)
    (hb : GraphCounted b) (h : graph_preimage a = graph_preimage b) : SameResolution a b := by
  unfold graph_preimage graph_identity_bytes at h
  have h := List.append_cancel_left h
  obtain ⟨htoolchain, h⟩ := toolchain_delimited _ _ _ _ trivial trivial h
  obtain ⟨hroot, h⟩ := sha_bytes_delimited _ _ _ _ trivial trivial h
  obtain ⟨hcount, h⟩ := be64_delimited _ _ _ _ ha.packages hb.packages h
  have hmap (graph : LeanResolutionGraphV1) :
      (graph.packages.flatMap fun package => hash_key_bytes package.key ++
        (package.candidate.identity.bytes ++ keys_bytes package.dependencies)) =
        (graph.packages.map LeanResolvedPackageV1.bound).flatMap bound_package_bytes := by
    rw [List.flatMap_map]
    rfl
  have hdependencies {graph : LeanResolutionGraphV1} (hgraph : GraphCounted graph) :
      ∀ package ∈ graph.packages.map LeanResolvedPackageV1.bound,
        package.dependencies.length < 2 ^ 64 := by
    intro package hpackage
    obtain ⟨resolved, hresolved, rfl⟩ := List.mem_map.mp hpackage
    exact hgraph.dependencies resolved hresolved
  rw [hmap, hmap] at h
  obtain ⟨hpackages, h⟩ := bound_package_delimited.flatMap (by simpa using hcount)
    (hdependencies ha) (hdependencies hb) h
  obtain ⟨hroots, h⟩ := keys_delimited _ _ _ _ ha.root_packages hb.root_packages h
  obtain ⟨horder, h⟩ := keys_delimited _ _ _ _ ha.resolution_order hb.resolution_order h
  obtain ⟨himpact, h⟩ := keys_delimited _ _ _ _ ha.impact_closure hb.impact_closure h
  obtain ⟨hlength, h⟩ := be64_delimited _ _ _ _ ha.shadows hb.shadows h
  have hshadows : a.shadows = b.shadows := by
    refine (shadow_delimited.flatMap (r := []) (s := []) hlength ha.origins hb.origins ?_).1
    rw [List.append_nil, List.append_nil]
    exact h
  exact ⟨htoolchain, hroot, hpackages, hroots, horder, himpact, hshadows⟩

/-! ## Resolved graphs can be counted -/

theorem dedup_adjacent_length {α : Type*} [DecidableEq α] (l : List α) :
    (dedup_adjacent l).length ≤ l.length := by
  fun_induction dedup_adjacent l with
  | case1 => simp only [List.length_cons] at *; omega
  | case2 => simp only [List.length_cons] at *; omega
  | case3 => exact le_rfl

/-- The declarations of a package are numbered below their count. -/
theorem package_requirement_origin {key : PackageKeyV1} {candidate : LeanPackageCandidateV1}
    {e : Declared} (h : e ∈ package_requirements key candidate) : OriginCounted e.1 := by
  unfold package_requirements at h
  obtain ⟨⟨requirement, index⟩, hmem, rfl⟩ := List.mem_map.mp h
  have hindex := (List.mem_zipIdx' hmem).1
  have hcount : candidate.dependencies.length ≤ 4096 := candidate.count_bounded
  show index < 2 ^ 64
  omega

theorem root_requirement_origin {root : LakeRootDeclarationV1} {roots : List Declared}
    (h : root_requirements root = .ok roots) {e : Declared} (he : e ∈ roots) :
    OriginCounted e.1 := by
  obtain ⟨⟨dependency, index⟩, hmem, horigin, -⟩ :=
    forall₂_partner (root_requirements_forall₂ h).flip he
  have hindex := (List.mem_zipIdx' hmem).1
  have hcount : root.dependencies.length ≤ 4096 := root.count_bounded
  rw [horigin]
  show index < 2 ^ 64
  omega

theorem root_requirements_length {root : LakeRootDeclarationV1} {roots : List Declared}
    (h : root_requirements root = .ok roots) : roots.length ≤ 4096 := by
  have hlength := (root_requirements_forall₂ h).length_eq
  rw [List.length_zipIdx] at hlength
  rw [← hlength]
  exact root.count_bounded

section WorkedOff

variable {roots : List Declared} {state : ResolutionState}

theorem requirements_of_length (key : PackageKeyV1) :
    (state.requirements_of key).length ≤ 4096 := by
  unfold ResolutionState.requirements_of
  split
  · exact Nat.zero_le _
  · rename_i entry _
    unfold package_requirements
    rw [List.length_map, List.length_zipIdx]
    exact entry.candidate.count_bounded

theorem worked_off_length (parents : List PackageKeyV1) :
    (state.worked_off roots parents).length ≤ roots.length + parents.length * 4096 := by
  unfold ResolutionState.worked_off
  rw [List.length_append, List.length_reverse, Nat.add_le_add_iff_left]
  induction parents with
  | nil => exact Nat.zero_le _
  | cons key parents ih =>
    have hkey : (state.requirements_of key).length ≤ 4096 := requirements_of_length key
    rw [List.flatMap_cons, List.length_append, List.length_reverse, List.length_cons]
    omega

theorem worked_off_counted (hroots : ∀ e ∈ roots, OriginCounted e.1)
    {parents : List PackageKeyV1} {e : Declared} (h : e ∈ state.worked_off roots parents) :
    OriginCounted e.1 := by
  rcases List.mem_append.mp h with h | h
  · exact hroots e (List.mem_reverse.mp h)
  · obtain ⟨key, -, h⟩ := List.mem_flatMap.mp h
    rw [List.mem_reverse] at h
    unfold ResolutionState.requirements_of at h
    split at h
    · exact absurd h List.not_mem_nil
    · exact package_requirement_origin h

end WorkedOff

/-- The impact of an update is among the locked and the selected keys. -/
theorem update_impact_length {lock : LeanBunLockV1} {packages : List LeanResolvedPackageV1}
    {update_set : List PackageKeyV1} :
    (update_impact lock packages update_set).length ≤ lock.packages.length + packages.length := by
  have hactive : (active_impact_closure lock update_set).length ≤ lock.packages.length := by
    have hsub : active_impact_closure lock update_set ⊆
        lock.packages.map LockedLeanPackageV1.key := by
      intro key hkey
      obtain ⟨package, hpackage⟩ := Option.isSome_iff_exists.mp (active_impact_closure_locked hkey)
      obtain ⟨hmem, rfl⟩ := lock_package_eq_some hpackage
      exact List.mem_map_of_mem hmem
    have hnodup : (active_impact_closure lock update_set).Nodup :=
      worklist_nodup _ _ _ _ List.nodup_nil
    simpa using (List.subperm_of_subset hnodup hsub).length_le
  have hselected : (selected_impact_closure packages update_set).length ≤ packages.length := by
    have hsub : selected_impact_closure packages update_set ⊆
        packages.map LeanResolvedPackageV1.key := by
      intro key hkey
      obtain ⟨target, -, hsome, hreach⟩ := (mem_selected_impact_closure key).mp hkey
      have hfound : (package_of packages key).isSome = true := by
        induction hreach with
        | refl => exact hsome
        | tail _ hstep _ =>
          unfold Succ selected_dependencies at hstep
          split at hstep
          · exact absurd hstep List.not_mem_nil
          · exact (List.mem_filter.mp hstep).2
      obtain ⟨package, hpackage⟩ := Option.isSome_iff_exists.mp hfound
      obtain ⟨hmem, rfl⟩ := package_of_eq_some hpackage
      exact List.mem_map_of_mem hmem
    have hnodup : (selected_impact_closure packages update_set).Nodup :=
      worklist_nodup _ _ _ _ List.nodup_nil
    simpa using (List.subperm_of_subset hnodup hsub).length_le
  unfold update_impact
  dsimp only
  have hfilter := List.length_filter_le
    (fun key => decide (key ∉ active_impact_closure lock update_set))
    (selected_impact_closure packages update_set)
  rw [sort_by_key_length, List.length_append]
  omega

theorem impact_length {request : LeanResolutionRequestV1} {packages : List LeanResolvedPackageV1}
    {impact : List PackageKeyV1} (h : validate_mode_result request packages = .ok impact) :
    impact.length ≤ 4096 + packages.length := by
  have hnil {other : List PackageKeyV1}
      (hother : (.ok [] : ResolveResult (List PackageKeyV1)) = .ok other) :
      other.length ≤ 4096 + packages.length := by
    cases hother
    exact Nat.zero_le _
  unfold validate_mode_result at h
  split at h
  · split at h
    · cases h
    · exact hnil h
  · rename_i lock _
    split at h
    · split at h
      · exact hnil h
      · cases h
    · split at h
      · cases h
      · dsimp only at h
        split at h
        · cases h
        · split at h
          · cases h
          · cases h
            have hlock : lock.packages.length ≤ 4096 := lock.count_bounded
            exact update_impact_length.trans (by omega)

/-- The counts that the resolution checks, and the identity that it gives. -/
theorem resolve_counts {request : LeanResolutionRequestV1} {candidates : List LeanPackageCandidateV1}
    {graph : LeanResolutionGraphV1}
    (h : resolve_lean_dependencies_v1 request candidates = .ok graph) :
    graph.packages.length ≤ 4096 ∧ graph.root_packages.length ≤ 4096 ∧
      graph.identity = digest (graph_preimage graph) := by
  unfold resolve_lean_dependencies_v1 at h
  obtain ⟨_, -, h⟩ := bind_eq_ok.mp h
  obtain ⟨_, -, h⟩ := bind_eq_ok.mp h
  obtain ⟨roots, hroots, h⟩ := bind_eq_ok.mp h
  obtain ⟨_, -, h⟩ := bind_eq_ok.mp h
  obtain ⟨final, -, h⟩ := bind_eq_ok.mp h
  obtain ⟨hselected, -, h⟩ := bind_eq_ok.mp h
  obtain ⟨_, -, h⟩ := bind_eq_ok.mp h
  obtain ⟨_, -, h⟩ := bind_eq_ok.mp h
  cases h
  refine ⟨?_, ?_, rfl⟩
  · rw [sort_by_key_length, List.length_map]
    exact hselected.down
  · have hlength := root_requirements_length hroots
    refine (dedup_adjacent_length _).trans ?_
    rw [sort_by_key_length, List.length_map, List.length_reverse]
    exact hlength

/-- **A resolved graph can be counted.** -/
theorem resolve_counted {request : LeanResolutionRequestV1}
    {candidates : List LeanPackageCandidateV1} {graph : LeanResolutionGraphV1}
    (h : resolve_lean_dependencies_v1 request candidates = .ok graph) : GraphCounted graph := by
  obtain ⟨hpackages, hroot_packages, -⟩ := resolve_counts h
  obtain ⟨roots, state, hroots, hinv, hgraph, horder, hshadows, hmode⟩ := resolve_parts h
  have himpact := impact_length hmode
  have hselected : graph.resolution_order.length = graph.packages.length := by
    rw [horder, hinv.order, hgraph, sort_by_key_length, List.length_map, List.length_map]
  have hdone : (state.worked_off roots state.resolution_order).length ≤
      roots.length + state.resolution_order.length * 4096 := worked_off_length _
  have hroots_length := root_requirements_length hroots
  have hcounted : ∀ e ∈ state.worked_off roots state.resolution_order, OriginCounted e.1 :=
    fun e he => worked_off_counted (fun _ hroot => root_requirement_origin hroots hroot) he
  have hshadows_length : graph.shadows.length ≤ roots.length + graph.packages.length * 4096 := by
    rw [hshadows, sort_by_key_length, hinv.accounted, ← hselected, horder]
    exact (List.length_filterMap_le _ _).trans hdone
  refine ⟨by omega, fun package hpackage => ?_, by omega, by omega, by omega, by omega, ?_⟩
  · rw [(resolve_candidates h hpackage).2]
    have hlength := dedup_adjacent_length
      (sort_by_key id (package.candidate.dependencies.map LeanDependencyRequirementV1.key))
    have hcount : package.candidate.dependencies.length ≤ 4096 := package.candidate.count_bounded
    rw [sort_by_key_length, List.length_map] at hlength
    unfold dependency_keys
    omega
  · intro shadow hshadow
    rw [hshadows, mem_sort_by_key, hinv.accounted] at hshadow
    obtain ⟨e, he, hentry⟩ := List.mem_filterMap.mp hshadow
    unfold ResolutionState.shadow_of at hentry
    obtain ⟨entry, hget, hentry⟩ := Option.bind_eq_some_iff.mp hentry
    split at hentry
    · cases hentry
    · cases hentry
      obtain ⟨w, hw, horigin, -⟩ := hinv.winners entry (get_eq_some hget).1
      exact ⟨horigin ▸ hcounted w hw, hcounted e he⟩

/-! ## The result -/

/-- **What the identities bind.** The identity of a resolution is the digest of its preimage;
two resolutions with one preimage are the same, and so are two candidates with one. -/
theorem resolution_identities_bind :
    (∀ (request : LeanResolutionRequestV1) (candidates : List LeanPackageCandidateV1)
      (graph : LeanResolutionGraphV1), resolve_lean_dependencies_v1 request candidates = .ok graph →
      graph.identity = digest (graph_preimage graph)) ∧
    (∀ (request request' : LeanResolutionRequestV1)
      (candidates candidates' : List LeanPackageCandidateV1) (a b : LeanResolutionGraphV1),
      resolve_lean_dependencies_v1 request candidates = .ok a →
      resolve_lean_dependencies_v1 request' candidates' = .ok b →
      graph_preimage a = graph_preimage b → SameResolution a b) ∧
    ∀ a b : LeanPackageCandidateV1, candidate_bytes a = candidate_bytes b → a = b := by
  refine ⟨fun _ _ _ h => (resolve_counts h).2.2, ?_, fun _ _ h => candidate_bytes_injective h⟩
  intro _ _ _ _ _ _ ha hb h
  exact graph_preimage_binds (resolve_counted ha) (resolve_counted hb) h

/-- The sample, resolved with its candidates in either order. -/
theorem resolution_identities_bind_sample : ∃ a b,
    resolve_lean_dependencies_v1 sample_request [sample_candidate_a, sample_candidate_b] = .ok a ∧
    resolve_lean_dependencies_v1 sample_request [sample_candidate_b, sample_candidate_a] = .ok b ∧
    SameResolution a b := by
  have hok : (resolve_lean_dependencies_v1 sample_request
      [sample_candidate_a, sample_candidate_b]).isOk = true := by decide +kernel
  have horders : resolve_lean_dependencies_v1 sample_request
      [sample_candidate_b, sample_candidate_a] =
      resolve_lean_dependencies_v1 sample_request [sample_candidate_a, sample_candidate_b] := by
    have hsorted : sort_by_key candidate_key [sample_candidate_b, sample_candidate_a] =
        sort_by_key candidate_key [sample_candidate_a, sample_candidate_b] := by decide +kernel
    unfold resolve_lean_dependencies_v1
    rw [hsorted]
    rfl
  obtain ⟨graph, hgraph⟩ := exists_of_isOk hok
  rw [horders]
  exact ⟨graph, graph, hgraph, hgraph,
    resolution_identities_bind.2.1 _ _ _ _ _ _ hgraph hgraph rfl⟩

end LeanBun.Resolver
