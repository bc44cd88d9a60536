/-
Root declarations as the resolver reads them and as the bridge does.

The resolver parses the URL of a root Git dependency into its canonical form and asks
for the declared revision, which may be a branch or a tag. The bridge compares the text
of the declaration with the locked package: the URL with the canonical URL, and the
declared revision with the exact one. So the bridge accepts a resolved root exactly when
it spells every Git dependency the way the lock does.
-/
import LeanBun.Bridge.Projection
import LeanBun.Resolver.Frozen

set_option autoImplicit false

namespace LeanBun.Resolver

open LeanBun.Lib LeanBun.Core LeanBun.Lock LeanBun.Bridge

/-- `validate_root_dependencies`: the first step of `LakeManifestProjectionV1::new`. -/
def validate_root_dependencies (declaration : LakeRootDeclarationV1) (lock : LeanBunLockV1) :
    BridgeResult Unit := do
  let _ ← declaration.dependencies.mapM (check_root_dependency lock)
  return ()

/-- The exact revision under which a package is locked. -/
def exact_revision (lock : LeanBunLockV1) (key : PackageKeyV1) : Option Str :=
  (lock_package lock key).bind fun package =>
    match package.resolved with
    | .Git _ exact_revision _ _ _ => some exact_revision
    | .PathSnapshot _ _ => none

/-- A Git dependency whose URL has no `.git` at its end and which names no revision or
the exact one; path and Reservoir dependencies always are. -/
def SpelledAsLocked (lock : LeanBunLockV1) (dependency : LakeRootDependencyV1) : Prop :=
  match dependency.source with
  | .Git url revision _ => dot_git.isSuffixOf url = false ∧
      ∀ value ∈ revision, exact_revision lock dependency.key = some value
  | .Path _ => True
  | .Reservoir => True

/-! ## What the resolver has matched -/

/-- The canonical form is the text itself exactly when there is no `.git` to strip. -/
theorem strip_dot_git_eq_iff {url : Str} :
    strip_dot_git url = url ↔ dot_git.isSuffixOf url = false := by
  unfold strip_dot_git
  by_cases hsuffix : dot_git.isSuffixOf url = true
  · rw [if_pos hsuffix]
    constructor
    · intro h
      have hlen : 4 ≤ url.length := (List.isSuffixOf_iff_suffix.mp hsuffix).length_le
      have htake := congrArg List.length h
      rw [List.length_take] at htake
      omega
    · intro h
      rw [hsuffix] at h
      cases h
  · rw [if_neg hsuffix]
    exact ⟨fun _ => Bool.eq_false_iff.mpr hsuffix, fun _ => rfl⟩

/-- The URL that a root dependency asks for. -/
theorem parse_value {raw : Str} {url : CanonicalSourceUrlV1}
    (h : CanonicalSourceUrlV1.parse raw = .ok url) : url.value = strip_dot_git raw := by
  unfold CanonicalSourceUrlV1.parse at h
  split at h
  · rename_i value hvalue
    cases h
    exact (parse_source_url_cases hvalue).2.1
  · cases h

/-- What a Git dependency asks for. -/
theorem from_root_git {dependency : LakeRootDependencyV1} {url : Str} {revision subdir : Option Str}
    {source : LeanSourceRequestV1} (hsource : dependency.source = .Git url revision subdir)
    (h : LeanSourceRequestV1.from_root dependency = .ok source) :
    ∃ parsed hrevision hsubdir, parsed.value = strip_dot_git url ∧
      source = .Git parsed revision subdir hrevision hsubdir := by
  unfold LeanSourceRequestV1.from_root at h
  rw [hsource] at h
  dsimp only at h
  split at h
  · cases h
  · rename_i parsed hparsed
    unfold LeanSourceRequestV1.git at h
    obtain ⟨⟨hrevision⟩, -, h⟩ := bind_eq_ok.mp h
    obtain ⟨⟨hsubdir⟩, -, h⟩ := bind_eq_ok.mp h
    cases h
    exact ⟨parsed, hrevision, hsubdir, parse_value hparsed, rfl⟩

/-- A candidate that matches a Git request was locked as that request. -/
theorem locked_git {candidate : LeanPackageCandidateV1} {package : LockedLeanPackageV1}
    {url : CanonicalSourceUrlV1} {revision subdir : Option Str}
    {hrevision : ∀ v ∈ revision, valid_text v = true}
    {hsubdir : ∀ v ∈ subdir, valid_relative_path v = true}
    (hmatch : request_matches_candidate (.Git url revision subdir hrevision hsubdir) candidate = true)
    (hcopy : CopiesCandidate candidate package) :
    ∃ exact hvalid hexact hlocked, package.requested = .Git url revision hvalid ∧
      package.resolved = .Git url exact subdir hexact hlocked := by
  have hrequested := hcopy.requested
  have hresolved := hcopy.resolved
  unfold request_matches_candidate at hmatch
  generalize candidate.requested = requested at hmatch hrequested
  generalize candidate.resolved = resolved at hmatch hresolved
  generalize package.requested = locked_request at hrequested ⊢
  generalize package.resolved = locked_source at hresolved ⊢
  cases requested with
  | Reservoir version hversion => cases hmatch
  | Path token htoken => cases hmatch
  | Git asked asked_revision asked_subdir hasked hasked_subdir =>
    cases resolved with
    | Path token source_identity htoken => cases hmatch
    | Git found exact found_subdir hfound hfound_subdir =>
      simp only [Bool.and_eq_true, decide_eq_true_eq] at hmatch
      obtain ⟨⟨⟨⟨rfl, rfl⟩, rfl⟩, rfl⟩, rfl⟩ := hmatch
      cases locked_request with
      | PathSnapshot token hvalid => exact hrequested.elim
      | Git locked_url requested_revision hvalid =>
        cases locked_source with
        | PathSnapshot token htoken => exact hresolved.elim
        | Git resolved_url locked_revision locked_subdir hexact hlocked =>
          obtain ⟨rfl, rfl⟩ := hrequested
          obtain ⟨rfl, rfl, rfl⟩ := hresolved
          exact ⟨_, hvalid, hexact, hlocked, rfl, rfl⟩

/-- A candidate that matches a path request was locked as that path. -/
theorem locked_path {candidate : LeanPackageCandidateV1} {package : LockedLeanPackageV1}
    {token : Str} {htoken : valid_relative_path token = true}
    (hmatch : request_matches_candidate (.Path token htoken) candidate = true)
    (hcopy : CopiesCandidate candidate package) :
    ∃ hrequested hresolved, package.requested = .PathSnapshot token hrequested ∧
      package.resolved = .PathSnapshot token hresolved := by
  have hrequested := hcopy.requested
  have hresolved := hcopy.resolved
  unfold request_matches_candidate at hmatch
  generalize candidate.requested = requested at hmatch hrequested
  generalize candidate.resolved = resolved at hmatch hresolved
  generalize package.requested = locked_request at hrequested ⊢
  generalize package.resolved = locked_source at hresolved ⊢
  cases requested with
  | Git asked asked_revision asked_subdir hasked hasked_subdir => cases hmatch
  | Reservoir version hversion => cases hmatch
  | Path asked hasked =>
    cases resolved with
    | Git found exact found_subdir hfound hfound_subdir => cases hmatch
    | Path found source_identity hfound =>
      simp only [Bool.and_eq_true, decide_eq_true_eq] at hmatch
      obtain ⟨rfl, rfl⟩ := hmatch
      cases locked_request with
      | Git locked_url requested_revision hvalid => exact hrequested.elim
      | PathSnapshot locked hvalid =>
        cases locked_source with
        | Git resolved_url exact locked_subdir hexact hlocked => exact hresolved.elim
        | PathSnapshot snapshot hsnapshot =>
          have hone : locked = token := hrequested
          have htwo : snapshot = token := hresolved
          subst hone
          subst htwo
          exact ⟨hvalid, hsnapshot, rfl, rfl⟩

/-- What a path dependency asks for. -/
theorem from_root_path {dependency : LakeRootDependencyV1} {directory : Str}
    {source : LeanSourceRequestV1} (hsource : dependency.source = .Path directory)
    (h : LeanSourceRequestV1.from_root dependency = .ok source) :
    ∃ htoken, source = .Path directory htoken := by
  unfold LeanSourceRequestV1.from_root LeanSourceRequestV1.path at h
  rw [hsource] at h
  dsimp only at h
  obtain ⟨⟨htoken⟩, -, h⟩ := bind_eq_ok.mp h
  cases h
  exact ⟨htoken, rfl⟩

/-! ## What the bridge accepts -/

section Bridge

variable {request : LeanResolutionRequestV1} {candidates : List LeanPackageCandidateV1}
  {graph : LeanResolutionGraphV1} {lock : LeanBunLockV1}

/-- Every root dependency was resolved to a candidate that matches it, and that candidate
is locked under its key. -/
theorem resolved_dependency (hresolve : resolve_lean_dependencies_v1 request candidates = .ok graph)
    (hcopies : LocksGraph graph lock) {dependency : LakeRootDependencyV1}
    (hdependency : dependency ∈ request.root.dependencies) :
    ∃ source candidate package, LeanSourceRequestV1.from_root dependency = .ok source ∧
      request_matches_candidate source candidate = true ∧ CopiesCandidate candidate package ∧
      lock_package lock dependency.key = some package := by
  obtain ⟨roots, winner, hroots, hcomplete⟩ := resolve_complete hresolve
  obtain ⟨e, he, hkey, hsource⟩ := exists_root_requirement hroots hdependency
  obtain ⟨package, hpackage, hpackage_key, hmatch⟩ :=
    hcomplete.matched e (List.mem_append_left _ he)
  obtain ⟨locked, -, hfound, hcopy⟩ := hcopies.copy hpackage
  refine ⟨e.2.source, package.candidate, locked, hsource, hmatch, hcopy, ?_⟩
  rw [← hkey, ← hpackage_key]
  exact hfound

/-- The check of one dependency. -/
theorem check_root_dependency_iff
    (hresolve : resolve_lean_dependencies_v1 request candidates = .ok graph)
    (hcopies : LocksGraph graph lock) {dependency : LakeRootDependencyV1}
    (hdependency : dependency ∈ request.root.dependencies) :
    check_root_dependency lock dependency = .ok () ↔ SpelledAsLocked lock dependency := by
  obtain ⟨source, candidate, package, hsource, hmatch, hcopy, hfound⟩ :=
    resolved_dependency hresolve hcopies hdependency
  unfold check_root_dependency SpelledAsLocked
  rw [show lock.packages.find? (fun p => decide (p.key = dependency.key)) = some package from hfound]
  dsimp only
  cases hkind : dependency.source with
  | Reservoir => exact ⟨fun _ => trivial, fun _ => rfl⟩
  | Path directory =>
    obtain ⟨htoken, rfl⟩ := from_root_path hkind hsource
    obtain ⟨hrequested, hresolved, hreq, hres⟩ := locked_path hmatch hcopy
    rw [hreq, hres]
    dsimp only
    rw [if_neg (by rintro (h | h) <;> exact h rfl)]
    exact ⟨fun _ => trivial, fun _ => rfl⟩
  | Git url revision subdir =>
    obtain ⟨parsed, hrevision, hsubdir, hvalue, rfl⟩ := from_root_git hkind hsource
    obtain ⟨exact, hvalid, hexact, hlocked, hreq, hres⟩ := locked_git hmatch hcopy
    have hnamed : exact_revision lock dependency.key = some exact := by
      unfold exact_revision
      rw [hfound, Option.bind_some, hres]
    rw [hreq, hres, hnamed]
    dsimp only
    rw [← strip_dot_git_eq_iff, ← hvalue]
    have hany : revision.any (fun value => decide (value ≠ exact)) = true ↔
        ¬∀ value ∈ revision, some exact = some value := by
      cases revision with
      | none => simp
      | some value =>
        rw [Option.any_some, decide_eq_true_eq]
        constructor
        · intro hne hsame
          exact hne (Option.some.inj (hsame value rfl)).symm
        · intro hdiffers heq
          refine hdiffers fun other hother => ?_
          rw [← heq, Option.mem_def.mp hother]
    constructor
    · intro h
      split at h
      · cases h
      · rename_i hgood
        simp only [not_or, not_not, hany] at hgood
        exact ⟨hgood.1.symm, hgood.2.2.1⟩
    · rintro ⟨hurl, hrev⟩
      refine if_neg ?_
      rintro (h | h | h | h)
      · exact h hurl.symm
      · exact h hurl.symm
      · exact hany.mp h hrev
      · exact h rfl

/-- **The bridge accepts the roots that are spelled as locked.** For a lock copied from
what the resolver selected, the root is accepted exactly when every Git dependency of it
has a URL without `.git` at its end and names no revision or the exact one. -/
theorem validate_root_dependencies_iff
    (hresolve : resolve_lean_dependencies_v1 request candidates = .ok graph)
    (hcopies : LocksGraph graph lock) :
    validate_root_dependencies request.root lock = .ok () ↔
      ∀ dependency ∈ request.root.dependencies, SpelledAsLocked lock dependency := by
  have hall : validate_root_dependencies request.root lock = .ok () ↔
      ∀ dependency ∈ request.root.dependencies, check_root_dependency lock dependency = .ok () := by
    unfold validate_root_dependencies
    constructor
    · intro h dependency hdependency
      obtain ⟨units, hunits, -⟩ := bind_eq_ok.mp h
      obtain ⟨_, -, hunit⟩ := forall₂_partner (mapM_eq_ok_iff.mp hunits) hdependency
      exact hunit
    · intro h
      refine bind_eq_ok.mpr
        ⟨request.root.dependencies.map fun _ => (), mapM_eq_ok_iff.mpr ?_, rfl⟩
      rw [List.forall₂_map_right_iff, List.forall₂_same]
      exact h
  rw [hall]
  refine forall_congr' fun dependency => ?_
  exact forall_congr' fun hdependency => check_root_dependency_iff hresolve hcopies hdependency

end Bridge

/-! ## A root that follows a branch -/

def branch_url : Str := "https://example.test/b".toList

theorem branch_url_parses : parse_source_url branch_url = .ok branch_url := by decide +kernel

def branch_source : CanonicalSourceUrlV1 := ⟨branch_url, branch_url, branch_url_parses⟩

def exact_sample : Str := List.replicate 40 'b'

/-- A revision that every constructor on the way accepts. -/
structure AcceptedRevision where
  value : Option Str
  declared : valid_dependency_source (.Git branch_url value none) = true
  asked : ∀ v ∈ value, valid_text v = true
  locked : ∀ v ∈ value, valid_atom v Lock.MAX_TEXT_BYTES false = true

def main_branch : AcceptedRevision :=
  ⟨some "main".toList, by decide +kernel, by decide +kernel, by decide +kernel⟩

def pinned_revision : AcceptedRevision :=
  ⟨some exact_sample, by decide +kernel, by decide +kernel, by decide +kernel⟩

section Branch

variable (revision : AcceptedRevision)

/-- The Git candidate for a requested revision. -/
def branch_candidate : LeanPackageCandidateV1 where
  key := sample_key_b
  requested := .Git branch_source revision.value none revision.asked (by simp)
  resolved := .Git branch_source exact_sample none (by decide +kernel) (by simp)
  dependencies := []
  toolchain_candidate := none
  download_integrity := some (digest [])
  source_tree_sha256 := digest []
  config_sha256 := digest []
  manifest_sha256 := none
  selected_source_identity := digest []
  count_bounded := Nat.zero_le _
  pair_valid := by simp [valid_source_pair]

/-- The root asks for the revision of `b`. -/
def branch_root : LakeRootDeclarationV1 where
  root_name := "root".toList
  config_file := "lakefile.toml".toList
  dependencies := [⟨sample_key_b, none, .Git branch_url revision.value none, no_text_valid _,
    revision.declared⟩]
  name_valid := sample_root.name_valid
  config_valid := sample_root.config_valid
  count_bounded := Nat.le_of_ble_eq_true rfl
  dependencies_sorted := List.pairwise_singleton _ _

def branch_request : LeanResolutionRequestV1 where
  root := branch_root revision
  active_lock := none
  mode := .Update [] no_keys_sorted (Nat.zero_le _)
  toolchain := sample_toolchain
  frozen_has_lock := empty_update_unfrozen
  lock_matches := fun _ h => by cases h

/-- The copy of the candidate. -/
def branch_package : LockedLeanPackageV1 where
  key := sample_key_b
  requested := .Git branch_source revision.value revision.locked
  resolved := .Git branch_source exact_sample none (by decide +kernel) no_subdir_valid
  download_integrity := some (digest [])
  source_tree_sha256 := digest []
  config_sha256 := digest []
  manifest_sha256 := none
  dependencies := []
  provenance_digests := [digest []]
  selected_source_identity := digest []
  counts_bounded := lone_package.counts_bounded
  integrity_present := fun h => by cases h.2
  compatible := by simp [sources_compatible]
  dependencies_sorted := no_keys_sorted
  no_self_dependency := List.not_mem_nil
  provenance_sorted := empty_digest_sorted
  provenance_present := empty_digest_present

def branch_lock (hgraph : validate_graph [branch_package revision] = .ok ()) : LeanBunLockV1 where
  lean_toolchain := sample_toolchain.lean_toolchain
  lean_compiler_githash := sample_toolchain.compiler_githash
  lake_version := sample_toolchain.lake_version
  root_config_sha256 := digest []
  root_declaration_sha256 := (branch_root revision).identity
  packages := [branch_package revision]
  graph_sha256 := hash_graph [branch_package revision]
  toolchain_valid := sample_toolchain_locked
  githash_valid := sample_githash_locked
  lake_valid := sample_lake_locked
  count_bounded := Nat.le_of_ble_eq_true rfl
  packages_sorted := List.pairwise_singleton _ _
  graph_valid := hgraph
  graph_hashed := rfl

/-- The resolution selects the candidate, and the lock holds its copy. -/
theorem branch_locks {hgraph : validate_graph [branch_package revision] = .ok ()}
    (hpackages : (resolve_lean_dependencies_v1 (branch_request revision)
      [branch_candidate revision]).map (fun graph => graph.packages) =
        .ok [⟨branch_candidate revision, []⟩]) : ∃ graph,
    resolve_lean_dependencies_v1 (branch_request revision) [branch_candidate revision] = .ok graph ∧
      LocksGraph graph (branch_lock revision hgraph) := by
  cases hresolve : resolve_lean_dependencies_v1 (branch_request revision)
    [branch_candidate revision] with
  | error e =>
    rw [hresolve] at hpackages
    cases hpackages
  | ok graph =>
    rw [hresolve] at hpackages
    refine ⟨graph, rfl, ?_⟩
    have hone : graph.packages = [⟨branch_candidate revision, []⟩] := Except.ok.inj hpackages
    unfold LocksGraph
    rw [hone]
    exact .cons ⟨rfl, ⟨rfl, rfl⟩, ⟨rfl, rfl, rfl⟩, rfl, rfl, rfl, rfl, rfl, rfl⟩ .nil

end Branch

theorem main_graph_valid : validate_graph [branch_package main_branch] = .ok () := by
  decide +kernel

theorem pinned_graph_valid : validate_graph [branch_package pinned_revision] = .ok () := by
  decide +kernel

/-- A root that names the exact revision is accepted. -/
theorem validate_root_dependencies_sample :
    validate_root_dependencies (branch_root pinned_revision)
        (branch_lock pinned_revision pinned_graph_valid) = .ok () ↔
      ∀ dependency ∈ (branch_root pinned_revision).dependencies,
        SpelledAsLocked (branch_lock pinned_revision pinned_graph_valid) dependency := by
  obtain ⟨graph, hresolve, hlocks⟩ := branch_locks pinned_revision (by decide +kernel)
  exact validate_root_dependencies_iff hresolve hlocks

/-- The root that follows the branch `main`: it resolves, its result is locked, and the
bridge refuses the pair. -/
theorem branch_refused : ∃ graph,
    resolve_lean_dependencies_v1 (branch_request main_branch) [branch_candidate main_branch] =
      .ok graph ∧
    LocksGraph graph (branch_lock main_branch main_graph_valid) ∧
    validate_root_dependencies (branch_root main_branch)
        (branch_lock main_branch main_graph_valid) =
      .error ⟨.SourceValueDrift, "root Git declaration differs from locked source"⟩ := by
  obtain ⟨graph, hresolve, hlocks⟩ := branch_locks main_branch (by decide +kernel)
  exact ⟨graph, hresolve, hlocks, rfl⟩

end LeanBun.Resolver
