/-
Resolving again under the lock of a resolution.

A lock is made of a graph by copying the facts of every selected candidate. Under
that lock, in frozen mode, every requirement is pinned to the copy of the candidate
that the first resolution selected for it, so the second resolution selects the same
one each time: the two runs stay in step through the roots and through the queue, and
candidates that match no locked package are never looked at.
-/
import LeanBun.Core.Evaluate
import LeanBun.Resolver.Selection

set_option autoImplicit false

namespace LeanBun.Resolver

open LeanBun.Lib LeanBun.Core LeanBun.Lock LeanBun.Bridge

/-! ## Copying candidates into a lock -/

/-- The requested source of a locked package that was made of a candidate. A Reservoir
request is locked as the Git source it was answered with. -/
def CopiesRequest : LeanSourceRequestV1 → RequestedPackageSourceV1 → Prop
  | .Git url revision _ _ _, .Git locked_url requested_revision _ =>
    locked_url = url ∧ requested_revision = revision
  | .Path token _, .PathSnapshot locked_token _ => locked_token = token
  | .Reservoir _ _, .Git _ _ _ => True
  | _, _ => False

/-- The exact source of a locked package that was made of a candidate. -/
def CopiesSource : LeanExactSourceV1 → ResolvedPackageSourceV1 → Prop
  | .Git url exact_revision subdir _ _, .Git locked_url locked_revision locked_subdir _ _ =>
    locked_url = url ∧ locked_revision = exact_revision ∧ locked_subdir = subdir
  | .Path token _ _, .PathSnapshot locked_token _ => locked_token = token
  | _, _ => False

/-- A locked package that holds the facts of a candidate. -/
structure CopiesCandidate (candidate : LeanPackageCandidateV1) (package : LockedLeanPackageV1) :
    Prop where
  key : package.key = candidate.key
  requested : CopiesRequest candidate.requested package.requested
  resolved : CopiesSource candidate.resolved package.resolved
  download_integrity : package.download_integrity = candidate.download_integrity
  source_tree_sha256 : package.source_tree_sha256 = candidate.source_tree_sha256
  config_sha256 : package.config_sha256 = candidate.config_sha256
  manifest_sha256 : package.manifest_sha256 = candidate.manifest_sha256
  dependencies : package.dependencies = dependency_keys candidate
  selected_source_identity :
    package.selected_source_identity = candidate.selected_source_identity

/-- A lock whose packages are copied from the packages of a graph. -/
def LocksGraph (graph : LeanResolutionGraphV1) (lock : LeanBunLockV1) : Prop :=
  List.Forall₂ (fun package locked => CopiesCandidate package.candidate locked) graph.packages
    lock.packages

/-- The candidate is what the lock holds under some key. -/
def MatchesLock (lock : LeanBunLockV1) (candidate : LeanPackageCandidateV1) : Prop :=
  ∃ package ∈ lock.packages, candidate_matches_lock candidate package = true

theorem copies_requested {requested : LeanSourceRequestV1} {locked : RequestedPackageSourceV1}
    (h : CopiesRequest requested locked) : requested_matches requested locked = true := by
  cases requested with
  | Git url revision subdir hrevision hsubdir =>
    cases locked with
    | Git locked_url requested_revision hvalid =>
      obtain ⟨rfl, rfl⟩ := h
      simp only [requested_matches, decide_true, Bool.and_self]
    | PathSnapshot locked_token hvalid => exact h.elim
  | Reservoir version hversion =>
    cases locked with
    | Git locked_url requested_revision hvalid => rfl
    | PathSnapshot locked_token hvalid => exact h.elim
  | Path token htoken =>
    cases locked with
    | Git locked_url requested_revision hvalid => exact h.elim
    | PathSnapshot locked_token hvalid => exact decide_eq_true h.symm

/-- The exact sources agree; for a path, because a candidate's source identity is the
one of its snapshot. -/
theorem copies_resolved (candidate : LeanPackageCandidateV1) {locked : ResolvedPackageSourceV1}
    (h : CopiesSource candidate.resolved locked) :
    resolved_matches candidate.resolved locked candidate.selected_source_identity = true := by
  have hpair := candidate.pair_valid
  generalize candidate.requested = requested at hpair
  generalize candidate.resolved = resolved at h hpair ⊢
  cases resolved with
  | Git url exact_revision subdir hrevision hsubdir =>
    cases locked with
    | Git locked_url locked_revision locked_subdir hlocked hlocked_subdir =>
      obtain ⟨rfl, rfl, rfl⟩ := h
      simp only [resolved_matches, decide_true, Bool.and_self]
    | PathSnapshot locked_token hvalid => exact h.elim
  | Path token source_identity htoken =>
    cases locked with
    | Git locked_url locked_revision locked_subdir hlocked hlocked_subdir => exact h.elim
    | PathSnapshot locked_token hvalid =>
      have hsource : source_identity = candidate.selected_source_identity := by
        cases requested with
        | Git url revision subdir hrevision hsubdir => cases hpair
        | Reservoir version hversion => cases hpair
        | Path asked hasked =>
          simp only [valid_source_pair, Bool.and_eq_true, decide_eq_true_eq] at hpair
          exact hpair.2
      simp only [resolved_matches, Bool.and_eq_true, decide_eq_true_eq]
      exact ⟨h.symm, hsource⟩

/-- **A candidate matches its copy**, on every field and for every kind of source. -/
theorem CopiesCandidate.matches_lock {candidate : LeanPackageCandidateV1}
    {package : LockedLeanPackageV1} (h : CopiesCandidate candidate package) :
    candidate_matches_lock candidate package = true := by
  have hrequested := copies_requested h.requested
  have hresolved := copies_resolved candidate h.resolved
  unfold candidate_matches_lock
  rw [h.key, h.download_integrity, h.source_tree_sha256, h.config_sha256, h.manifest_sha256,
    h.selected_source_identity, h.dependencies, hrequested, hresolved]
  simp only [decide_true, Bool.and_self]

/-- Every package of the graph has its copy under its key. -/
theorem LocksGraph.copy {graph : LeanResolutionGraphV1} {lock : LeanBunLockV1}
    (h : LocksGraph graph lock) {package : LeanResolvedPackageV1}
    (hpackage : package ∈ graph.packages) :
    ∃ locked ∈ lock.packages, lock_package lock package.key = some locked ∧
      CopiesCandidate package.candidate locked := by
  obtain ⟨locked, hlocked, hcopies⟩ := forall₂_partner h hpackage
  refine ⟨locked, hlocked, ?_, hcopies⟩
  have hkey : locked.key = package.key := hcopies.key
  rw [← hkey]
  exact lock_package_of_mem hlocked

/-! ## Growing selections -/

section Growing

variable {request : LeanResolutionRequestV1} {registry : List LeanPackageCandidateV1}
  {state state' : ResolutionState}

theorem select_requirement_grows {origin : LeanResolutionOriginV1}
    {requirement : LeanDependencyRequirementV1}
    (h : select_requirement request registry state origin requirement = .ok state') :
    state.selected ⊆ state'.selected := by
  rcases select_requirement_cases h with ⟨existing, -, -, rfl⟩ | ⟨candidate, -, -, rfl⟩
  · exact fun _ hmem => hmem
  · exact List.subset_append_left _ _

theorem select_all_grows {requirements : List Declared}
    (h : select_all request registry state requirements = .ok state') :
    state.selected ⊆ state'.selected := by
  unfold select_all at h
  refine foldlM_invariant (fun _ (s : ResolutionState) => state.selected ⊆ s.selected) ?_
    (List.Subset.refl _) h
  intro _ _ _ _ _ hsub hstep
  exact List.Subset.trans hsub (select_requirement_grows hstep)

theorem resolve_queue_grows {fuel : ℕ} (h : resolve_queue request registry fuel state = .ok state') :
    state.selected ⊆ state'.selected := by
  induction fuel generalizing state with
  | zero =>
    unfold resolve_queue at h
    split at h
    · cases h
      exact List.Subset.refl _
    · cases h
  | succ fuel ih =>
    unfold resolve_queue at h
    split at h
    · cases h
      exact List.Subset.refl _
    · split at h
      · cases h
      · obtain ⟨next, hnext, h⟩ := bind_eq_ok.mp h
        have hround := select_all_grows hnext
        exact List.Subset.trans hround (ih h)

theorem resolve_queue_empty {fuel : ℕ} (h : state.queue = []) :
    resolve_queue request registry fuel state = .ok state := by
  cases fuel with
  | zero => exact if_pos h
  | succ fuel =>
    unfold resolve_queue
    rw [h]

end Growing

/-! ## Two runs in step -/

section Step

variable {request request' : LeanResolutionRequestV1}
  {registry registry' : List LeanPackageCandidateV1} {chosen : List SelectedCandidate}

/-- Whenever the first run is left with one candidate, and it is among the chosen ones,
the second run is left with the same one. -/
def InStep (request request' : LeanResolutionRequestV1)
    (registry registry' : List LeanPackageCandidateV1) (chosen : List SelectedCandidate) : Prop :=
  ∀ requirement candidate origin, matching request registry requirement = [candidate] →
    (⟨candidate, origin⟩ : SelectedCandidate) ∈ chosen →
      matching request' registry' requirement = [candidate]

variable (htoolchain : request'.toolchain = request.toolchain)
  (hstep : InStep request request' registry registry' chosen) {state state' : ResolutionState}

include htoolchain hstep

/-- One requirement. -/
theorem select_requirement_in_step {origin : LeanResolutionOriginV1}
    {requirement : LeanDependencyRequirementV1}
    (h : select_requirement request registry state origin requirement = .ok state')
    (hchosen : state'.selected ⊆ chosen) :
    select_requirement request' registry' state origin requirement = .ok state' := by
  have hcases := select_requirement_cases h
  unfold select_requirement at h ⊢
  cases hget : state.get requirement.key with
  | some existing =>
    rw [hget] at h
    exact h
  | none =>
    rw [hget] at h
    rcases hcases with ⟨existing, hsome, -, -⟩ | ⟨candidate, -, hone, rfl⟩
    · rw [hget] at hsome
      cases hsome
    have hin : (⟨candidate, origin⟩ : SelectedCandidate) ∈ chosen :=
      hchosen (List.mem_append_right _ (List.mem_singleton_self _))
    have hone' := hstep requirement candidate origin hone hin
    have havail : ∀ {r : LeanResolutionRequestV1} {reg : List LeanPackageCandidateV1},
        matching r reg requirement = [candidate] → available reg requirement.key ≠ [] := by
      intro r reg hmatching hnil
      unfold matching at hmatching
      rw [hnil] at hmatching
      cases hmatching
    dsimp only at h ⊢
    rw [if_neg (havail hone), hone] at h
    rw [if_neg (havail hone'), hone', htoolchain]
    exact h

/-- A list of requirements. -/
theorem select_all_in_step {requirements : List Declared}
    (h : select_all request registry state requirements = .ok state')
    (hchosen : state'.selected ⊆ chosen) :
    select_all request' registry' state requirements = .ok state' := by
  unfold select_all at h ⊢
  generalize requirements.reverse = entries at h ⊢
  induction entries generalizing state with
  | nil => exact h
  | cons entry entries ih =>
    rw [List.foldlM_cons] at h ⊢
    obtain ⟨next, hnext, h⟩ := bind_eq_ok.mp h
    have hrest : next.selected ⊆ state'.selected := by
      refine foldlM_invariant (fun _ (s : ResolutionState) => next.selected ⊆ s.selected) ?_
        (List.Subset.refl _) h
      exact fun _ _ _ _ _ hsub hone => List.Subset.trans hsub (select_requirement_grows hone)
    have hnext' := select_requirement_in_step htoolchain hstep hnext
      (List.Subset.trans hrest hchosen)
    exact bind_eq_ok.mpr ⟨next, hnext', ih h⟩

/-- **The queue.** More fuel makes no difference. -/
theorem resolve_queue_in_step {fuel extra : ℕ}
    (h : resolve_queue request registry fuel state = .ok state')
    (hchosen : state'.selected ⊆ chosen) :
    resolve_queue request' registry' (fuel + extra) state = .ok state' := by
  induction fuel generalizing state with
  | zero =>
    unfold resolve_queue at h
    split at h
    · rename_i hempty
      cases h
      exact resolve_queue_empty hempty
    · cases h
  | succ fuel ih =>
    rw [Nat.succ_add]
    unfold resolve_queue at h ⊢
    cases hqueue : state.queue with
    | nil =>
      rw [hqueue] at h
      exact h
    | cons parent_key queue =>
      rw [hqueue] at h
      dsimp only at h ⊢
      cases hget : state.get parent_key with
      | none =>
        rw [hget] at h
        cases h
      | some parent =>
        rw [hget] at h
        dsimp only at h ⊢
        obtain ⟨next, hnext, h⟩ := bind_eq_ok.mp h
        have hnext' := select_all_in_step htoolchain hstep hnext
          (List.Subset.trans (resolve_queue_grows h) hchosen)
        exact bind_eq_ok.mpr ⟨next, hnext', ih h⟩

end Step

/-! ## The frozen run -/

/-- The same root and toolchain, in frozen mode under a lock. -/
def frozen_request (request : LeanResolutionRequestV1) (lock : LeanBunLockV1)
    (h : lock_matches_request lock request.root request.toolchain) : LeanResolutionRequestV1 where
  root := request.root
  active_lock := some lock
  mode := .Frozen
  toolchain := request.toolchain
  frozen_has_lock := fun _ => Option.some_ne_none lock
  lock_matches := fun _ hlock => Option.some.inj hlock ▸ h

section Frozen

variable {request : LeanResolutionRequestV1} {lock : LeanBunLockV1}
  {hlock : lock_matches_request lock request.root request.toolchain}
  {registry registry' more candidates all : List LeanPackageCandidateV1}
  {graph : LeanResolutionGraphV1}

/-- Without an active lock nothing is pinned. -/
theorem matches_pin_of_none (hnone : request.active_lock = none) (key : PackageKeyV1)
    (candidate : LeanPackageCandidateV1) : matches_pin request key candidate = true := by
  unfold matches_pin pinned
  rw [hnone]
  split <;> rfl

/-- In the frozen run everything is pinned to its locked package. -/
theorem matches_pin_frozen (key : PackageKeyV1) (candidate : LeanPackageCandidateV1) :
    matches_pin (frozen_request request lock hlock) key candidate =
      (lock_package lock key).all fun package => candidate_matches_lock candidate package := by
  have hkey : key ∉ (frozen_request request lock hlock).mode.update_set := List.not_mem_nil
  unfold matches_pin pinned
  rw [if_neg hkey]
  rfl

/-- The frozen run looks for the pin among what the first run looks at. -/
theorem matching_frozen (hnone : request.active_lock = none)
    (requirement : LeanDependencyRequirementV1) :
    matching (frozen_request request lock hlock) registry requirement =
      (matching request registry requirement).filter
        (matches_pin (frozen_request request lock hlock) requirement.key) := by
  unfold matching
  rw [List.filter_filter]
  refine List.filter_congr fun candidate _ => ?_
  rw [matches_pin_of_none hnone, Bool.and_true, Bool.and_comm]

/-- **The pin leaves the selected candidate.** -/
theorem frozen_in_step (hnone : request.active_lock = none) (hcopies : LocksGraph graph lock)
    {chosen : List SelectedCandidate}
    (hgraph : ∀ entry ∈ chosen, resolved_package entry ∈ graph.packages)
    (hperm : registry'.Perm (registry ++ more))
    (hmore : ∀ candidate ∈ more, ¬MatchesLock lock candidate) :
    InStep request (frozen_request request lock hlock) registry registry' chosen := by
  intro requirement candidate origin hone hin
  obtain ⟨locked, hlocked, hfound, hcopy⟩ := hcopies.copy (hgraph _ hin)
  have hkey : candidate.key = requirement.key := by
    have hmem : candidate ∈ matching request registry requirement := by
      rw [hone]
      exact List.mem_singleton_self _
    exact (mem_matching.mp hmem).2.1
  have hpin : lock_package lock requirement.key = some locked := by
    rw [← hkey]
    exact hfound
  have hold : matching (frozen_request request lock hlock) registry requirement = [candidate] := by
    rw [matching_frozen hnone, hone, List.filter_cons_of_pos, List.filter_nil]
    rw [matches_pin_frozen, hpin]
    exact hcopy.matches_lock
  have hnew : matching (frozen_request request lock hlock) more requirement = [] := by
    refine List.eq_nil_iff_forall_not_mem.mpr fun other hother => ?_
    obtain ⟨hmem, -, -, hother⟩ := mem_matching.mp hother
    rw [matches_pin_frozen, hpin] at hother
    exact hmore other hmem ⟨locked, hlocked, hother⟩
  have hall : (matching (frozen_request request lock hlock) registry' requirement).Perm
      [candidate] := by
    have hfilter := (hperm.filter fun c => decide (c.key = requirement.key)).filter fun c =>
      request_matches_candidate requirement.source c &&
        matches_pin (frozen_request request lock hlock) requirement.key c
    rw [List.filter_append, List.filter_append] at hfilter
    refine hfilter.trans ?_
    show (matching (frozen_request request lock hlock) registry requirement ++
      matching (frozen_request request lock hlock) more requirement).Perm [candidate]
    rw [hold, hnew]
    exact List.Perm.refl _
  exact List.perm_singleton.mp hall

/-- The selected packages are the locked ones, all of them. -/
theorem validate_frozen (hcopies : LocksGraph graph lock)
    (hsorted : StrictlySorted LeanResolvedPackageV1.key graph.packages) :
    validate_mode_result (frozen_request request lock hlock) graph.packages = .ok [] := by
  have hlength : lock.packages.length = graph.packages.length := hcopies.length_eq.symm
  have hall : lock.packages.all (selected_as_locked graph.packages) = true := by
    refine List.all_eq_true.mpr fun locked hlocked => ?_
    obtain ⟨package, hpackage, hcopy⟩ := forall₂_partner hcopies.flip hlocked
    have hfound : package_of graph.packages locked.key = some package := by
      have hkey : locked.key = package.key := hcopy.key
      rw [hkey]
      exact find_key_of_mem hsorted.nodup hpackage
    unfold selected_as_locked
    rw [hfound]
    exact hcopy.matches_lock
  unfold validate_mode_result
  exact if_pos ⟨hlength, hall⟩

/-- **The frozen resolution is the first one**, on any registry that has the first one's
candidates and besides them only some that match no locked package. -/
theorem resolve_frozen (hnone : request.active_lock = none)
    (hresolve : resolve_lean_dependencies_v1 request candidates = .ok graph)
    (hcopies : LocksGraph graph lock) (hperm : all.Perm (candidates ++ more))
    (hmore : ∀ candidate ∈ more, ¬MatchesLock lock candidate)
    (hlimit : all.length ≤ MAX_PACKAGES_V1 * 4)
    (hdistinct : adjacent_equal (fun candidate : LeanPackageCandidateV1 => candidate.identity.key)
      (sort_by_key candidate_key all) = false) :
    resolve_lean_dependencies_v1 (frozen_request request lock hlock) all = .ok graph := by
  obtain ⟨roots', winner, -, hcomplete⟩ := resolve_complete hresolve
  have hvalidate : validate_mode_result (frozen_request request lock hlock) graph.packages = .ok [] :=
    validate_frozen hcopies hcomplete.packages_sorted
  unfold resolve_lean_dependencies_v1 at hresolve
  obtain ⟨_, -, hresolve⟩ := bind_eq_ok.mp hresolve
  obtain ⟨_, -, hresolve⟩ := bind_eq_ok.mp hresolve
  obtain ⟨roots, hroots, hresolve⟩ := bind_eq_ok.mp hresolve
  obtain ⟨state, hselect, hresolve⟩ := bind_eq_ok.mp hresolve
  obtain ⟨final, hqueue, hresolve⟩ := bind_eq_ok.mp hresolve
  obtain ⟨_, hcount, hresolve⟩ := bind_eq_ok.mp hresolve
  obtain ⟨_, hcycles, hresolve⟩ := bind_eq_ok.mp hresolve
  obtain ⟨impact, hmode, hresolve⟩ := bind_eq_ok.mp hresolve
  have himpact : impact = [] := by
    unfold validate_mode_result at hmode
    rw [hnone] at hmode
    dsimp only at hmode
    split at hmode
    · cases hmode
    · exact (Except.ok.inj hmode).symm
  cases hresolve
  have hsorted : (sort_by_key candidate_key all).Perm
      (sort_by_key candidate_key candidates ++ more) :=
    (sort_by_key_perm _ all).trans (hperm.trans
      ((sort_by_key_perm candidate_key candidates).symm.append_right more))
  have hstep : InStep request (frozen_request request lock hlock)
      (sort_by_key candidate_key candidates) (sort_by_key candidate_key all) final.selected := by
    refine frozen_in_step hnone hcopies (fun entry hentry => ?_) hsorted hmore
    exact mem_resolved_packages.mpr ⟨entry, hentry, rfl⟩
  have hfuel : all.length = candidates.length + more.length := by
    rw [hperm.length_eq, List.length_append]
  have htoolchain : (frozen_request request lock hlock).toolchain = request.toolchain := rfl
  have hselect' := select_all_in_step htoolchain hstep hselect (resolve_queue_grows hqueue)
  have hqueue' : resolve_queue (frozen_request request lock hlock) (sort_by_key candidate_key all)
      (candidates.length + more.length) state = .ok final :=
    resolve_queue_in_step htoolchain hstep hqueue (List.Subset.refl _)
  rw [← hfuel] at hqueue'
  unfold resolve_lean_dependencies_v1
  refine bind_eq_ok.mpr ⟨_, ensure_ok hlimit _, ?_⟩
  refine bind_eq_ok.mpr ⟨_, ensure_ok hdistinct _, ?_⟩
  refine bind_eq_ok.mpr ⟨roots, hroots, ?_⟩
  refine bind_eq_ok.mpr ⟨state, hselect', ?_⟩
  refine bind_eq_ok.mpr ⟨final, hqueue', ?_⟩
  refine bind_eq_ok.mpr ⟨_, hcount, ?_⟩
  refine bind_eq_ok.mpr ⟨_, hcycles, ?_⟩
  refine bind_eq_ok.mpr ⟨[], hvalidate, ?_⟩
  rw [himpact]
  rfl

/-- **Frozen mode repeats a resolution.** Under a lock copied from the result, the same
candidates resolve to the same graph, and so does every registry that adds candidates
matching no locked package, within the registry's limit and without repeating an
identity. -/
theorem frozen_repeats (hnone : request.active_lock = none)
    (hresolve : resolve_lean_dependencies_v1 request candidates = .ok graph)
    (hcopies : LocksGraph graph lock) :
    resolve_lean_dependencies_v1 (frozen_request request lock hlock) candidates = .ok graph ∧
      ∀ more all, all.Perm (candidates ++ more) →
        (∀ candidate ∈ more, ¬MatchesLock lock candidate) →
        all.length ≤ MAX_PACKAGES_V1 * 4 →
        (all.map LeanPackageCandidateV1.identity).Nodup →
        resolve_lean_dependencies_v1 (frozen_request request lock hlock) all = .ok graph := by
  constructor
  · have hchecks := hresolve
    unfold resolve_lean_dependencies_v1 at hchecks
    obtain ⟨⟨hlimit⟩, -, hchecks⟩ := bind_eq_ok.mp hchecks
    obtain ⟨⟨hdistinct⟩, -, -⟩ := bind_eq_ok.mp hchecks
    have hperm : candidates.Perm (candidates ++ []) := by
      rw [List.append_nil]
    exact resolve_frozen hnone hresolve hcopies hperm
      (fun _ hmem => absurd hmem List.not_mem_nil) hlimit hdistinct
  · intro more all hperm hmore hlimit hnodup
    refine resolve_frozen hnone hresolve hcopies hperm hmore hlimit ?_
    refine adjacent_equal_of_nodup _ ?_
    have hkeys : (all.map fun candidate => candidate.identity.key).Nodup := by
      have hmap := hnodup.map Sha256.key_injective
      rwa [List.map_map] at hmap
    exact (((sort_by_key_perm candidate_key all).map _).nodup_iff).mpr hkeys

end Frozen

/-! ## A root with one dependency -/

/-- The root requires `b` by path. -/
def lone_root : LakeRootDeclarationV1 where
  root_name := "root".toList
  config_file := "lakefile.toml".toList
  dependencies := [⟨sample_key_b, none, .Path ['b'], no_text_valid _, b_source_valid⟩]
  name_valid := sample_root.name_valid
  config_valid := sample_root.config_valid
  count_bounded := by decide +kernel
  dependencies_sorted := by decide +kernel

def lone_request : LeanResolutionRequestV1 where
  root := lone_root
  active_lock := none
  mode := .Update [] no_keys_sorted (Nat.zero_le _)
  toolchain := sample_toolchain
  frozen_has_lock := empty_update_unfrozen
  lock_matches := no_lock_matches lone_root sample_toolchain

/-- The copy of `b`. -/
def lone_package : LockedLeanPackageV1 where
  key := sample_key_b
  requested := .PathSnapshot ['b'] b_path_valid
  resolved := .PathSnapshot ['b'] b_path_valid
  download_integrity := none
  source_tree_sha256 := digest []
  config_sha256 := digest []
  manifest_sha256 := none
  dependencies := []
  provenance_digests := [digest []]
  selected_source_identity := digest []
  counts_bounded := by decide +kernel
  integrity_present := by decide +kernel
  compatible := b_paths_compatible
  dependencies_sorted := no_keys_sorted
  no_self_dependency := List.not_mem_nil
  provenance_sorted := empty_digest_sorted
  provenance_present := empty_digest_present

def lone_lock : LeanBunLockV1 where
  lean_toolchain := sample_toolchain.lean_toolchain
  lean_compiler_githash := sample_toolchain.compiler_githash
  lake_version := sample_toolchain.lake_version
  root_config_sha256 := digest []
  root_declaration_sha256 := lone_root.identity
  packages := [lone_package]
  graph_sha256 := hash_graph [lone_package]
  toolchain_valid := sample_toolchain_locked
  githash_valid := sample_githash_locked
  lake_valid := sample_lake_locked
  count_bounded := by decide +kernel
  packages_sorted := List.pairwise_singleton _ _
  graph_valid := by decide +kernel
  graph_hashed := rfl

theorem lone_lock_matches : lock_matches_request lone_lock lone_root sample_toolchain :=
  ⟨rfl, rfl, rfl, rfl⟩

theorem lone_resolves : ∃ graph,
    resolve_lean_dependencies_v1 lone_request [sample_candidate_b] = .ok graph ∧
      LocksGraph graph lone_lock := by
  have hpackages : (resolve_lean_dependencies_v1 lone_request [sample_candidate_b]).map
      (fun graph => graph.packages) = .ok [⟨sample_candidate_b, []⟩] := by decide +kernel
  cases hresolve : resolve_lean_dependencies_v1 lone_request [sample_candidate_b] with
  | error e =>
    rw [hresolve] at hpackages
    cases hpackages
  | ok graph =>
    rw [hresolve] at hpackages
    refine ⟨graph, rfl, ?_⟩
    have hone : graph.packages = [⟨sample_candidate_b, []⟩] := Except.ok.inj hpackages
    unfold LocksGraph
    rw [hone]
    exact .cons ⟨rfl, rfl, rfl, rfl, rfl, rfl, rfl, rfl, rfl⟩ .nil

/-- No locked package is called `a`. -/
theorem lone_lock_without_a : ¬MatchesLock lone_lock sample_candidate_a := by
  rintro ⟨package, hpackage, hmatch⟩
  rw [show lone_lock.packages = [lone_package] from rfl, List.mem_singleton] at hpackage
  subst hpackage
  unfold candidate_matches_lock at hmatch
  simp only [Bool.and_eq_true, decide_eq_true_eq] at hmatch
  exact absurd hmatch.1.1.1.1.1.1.1.1 (by decide +kernel)

theorem sample_identities_distinct :
    sample_candidate_b.identity ≠ sample_candidate_a.identity := by
  unfold LeanPackageCandidateV1.identity
  simp only [digest_eq_evaluate]
  decide +kernel

/-- The root with one dependency, resolved again with `a` added. -/
theorem frozen_repeats_sample : ∃ graph,
    resolve_lean_dependencies_v1 (frozen_request lone_request lone_lock lone_lock_matches)
      [sample_candidate_b] = .ok graph ∧
    resolve_lean_dependencies_v1 (frozen_request lone_request lone_lock lone_lock_matches)
      [sample_candidate_b, sample_candidate_a] = .ok graph := by
  obtain ⟨graph, hresolve, hcopies⟩ := lone_resolves
  have hnone : lone_request.active_lock = none := rfl
  have hboth := @frozen_repeats lone_request lone_lock lone_lock_matches [sample_candidate_b] graph
    hnone hresolve hcopies
  have hperm : ([sample_candidate_b, sample_candidate_a]).Perm
      ([sample_candidate_b] ++ [sample_candidate_a]) := List.Perm.refl _
  have hmore : ∀ candidate ∈ [sample_candidate_a], ¬MatchesLock lone_lock candidate := by
    intro candidate hmem
    rw [List.mem_singleton.mp hmem]
    exact lone_lock_without_a
  have hlimit : ([sample_candidate_b, sample_candidate_a]).length ≤ MAX_PACKAGES_V1 * 4 := by
    rw [List.length_cons, List.length_singleton]
    decide
  have hnodup : (([sample_candidate_b, sample_candidate_a]).map
      LeanPackageCandidateV1.identity).Nodup := by
    rw [List.map_cons, List.map_cons, List.map_nil, List.nodup_cons]
    refine ⟨fun hmem => ?_, List.nodup_singleton _⟩
    exact sample_identities_distinct (List.mem_singleton.mp hmem)
  exact ⟨graph, hboth.1, hboth.2 _ _ hperm hmore hlimit hnodup⟩

/-- A registry that is accepted has every candidate once. -/
theorem accepted_registry_nodup {request : LeanResolutionRequestV1}
    {candidates : List LeanPackageCandidateV1} {graph : LeanResolutionGraphV1}
    (h : resolve_lean_dependencies_v1 request candidates = .ok graph) : candidates.Nodup := by
  unfold resolve_lean_dependencies_v1 at h
  obtain ⟨_, -, h⟩ := bind_eq_ok.mp h
  obtain ⟨⟨hdistinct⟩, -, -⟩ := bind_eq_ok.mp h
  have hkeys : adjacent_equal candidate_key (sort_by_key candidate_key candidates) = false := by
    refine adjacent_equal_mono (fun a b hab => ?_) hdistinct
    exact congrArg Prod.snd (toLex.injective hab)
  have hsorted := strictly_sorted_of_adjacent _ (sort_by_key_sorted candidate_key candidates) hkeys
  have hnodup : (sort_by_key candidate_key candidates).Nodup := List.Nodup.of_map _ hsorted.nodup
  exact (sort_by_key_perm candidate_key candidates).nodup_iff.mp hnodup

/-- Adding one candidate twice: it matches no locked package, and the registry is refused. -/
theorem frozen_refuses_repeated : ∃ graph more,
    lone_request.active_lock = none ∧
    resolve_lean_dependencies_v1 lone_request [sample_candidate_b] = .ok graph ∧
    LocksGraph graph lone_lock ∧ (∀ candidate ∈ more, ¬MatchesLock lone_lock candidate) ∧
    resolve_lean_dependencies_v1 (frozen_request lone_request lone_lock lone_lock_matches)
      ([sample_candidate_b] ++ more) ≠ .ok graph := by
  obtain ⟨graph, hresolve, hcopies⟩ := lone_resolves
  refine ⟨graph, List.replicate 2 sample_candidate_a, rfl, hresolve, hcopies, ?_, ?_⟩
  · intro candidate hmem
    rw [List.eq_of_mem_replicate hmem]
    exact lone_lock_without_a
  · intro h
    have hnodup := (List.nodup_append.mp (accepted_registry_nodup h)).2.1
    exact absurd hnodup (by rw [List.nodup_replicate]; decide)

end LeanBun.Resolver
