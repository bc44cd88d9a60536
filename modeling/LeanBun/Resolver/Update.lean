/-
What an update may change.

With an active lock, a package that is not an update target is pinned to its
locked state, and `validate_mode_result` compares the lock with the selected
packages. A package can therefore differ from the lock only inside the impact
closure, with one exception: a package the root requires and the lock does not
have is compared with nothing.
-/
import LeanBun.Resolver.Selection

set_option autoImplicit false

namespace LeanBun.Resolver

open LeanBun.Lib LeanBun.Core LeanBun.Lock LeanBun.Bridge

/-! ## The lock as a map -/

theorem lock_package_eq_some {lock : LeanBunLockV1} {key : PackageKeyV1}
    {package : LockedLeanPackageV1} (h : lock_package lock key = some package) :
    package ∈ lock.packages ∧ package.key = key := find_key_some h

/-- The dependencies of a locked package are locked. -/
theorem lock_dependency {lock : LeanBunLockV1} {package : LockedLeanPackageV1}
    (hpackage : package ∈ lock.packages) {dependency : PackageKeyV1}
    (h : dependency ∈ package.dependencies) : (lock_package lock dependency).isSome = true := by
  have hvalid := lock.graph_valid
  unfold validate_graph at hvalid
  obtain ⟨⟨hedges⟩, -, -⟩ := bind_eq_ok.mp hvalid
  have hedge := hedges package hpackage dependency h
  unfold index_of at hedge
  rw [List.findIdx?_isSome] at hedge
  unfold lock_package
  rw [List.find?_isSome]
  exact List.any_eq_true.mp hedge

/-! ## The packages as a map -/

theorem package_of_eq_some {packages : List LeanResolvedPackageV1} {key : PackageKeyV1}
    {package : LeanResolvedPackageV1} (h : package_of packages key = some package) :
    package ∈ packages ∧ package.key = key := find_key_some h

theorem package_of_eq_none {packages : List LeanResolvedPackageV1} {key : PackageKeyV1} :
    package_of packages key = none ↔ ∀ package ∈ packages, package.key ≠ key := find_key_none

theorem package_of_mem {packages : List LeanResolvedPackageV1} {package : LeanResolvedPackageV1}
    (hsorted : StrictlySorted LeanResolvedPackageV1.key packages) (h : package ∈ packages) :
    package_of packages package.key = some package := find_key_of_mem hsorted.nodup h

/-! ## The closures -/

/-- The selected closure is what the selected targets reach. -/
theorem mem_selected_impact_closure {packages : List LeanResolvedPackageV1}
    {update_set : List PackageKeyV1} (key : PackageKeyV1) :
    key ∈ selected_impact_closure packages update_set ↔
      ∃ target ∈ update_set, (package_of packages target).isSome = true ∧
        Relation.ReflTransGen (Succ (selected_dependencies packages)) target key := by
  have hkey : ∀ k, (package_of packages k).isSome = true →
      k ∈ packages.map LeanResolvedPackageV1.key := by
    intro k hk
    obtain ⟨package, hpackage⟩ := Option.isSome_iff_exists.mp hk
    obtain ⟨hmem, hpk⟩ := package_of_eq_some hpackage
    exact List.mem_map.mpr ⟨package, hmem, hpk⟩
  have hclosed : ∀ x ∈ packages.map LeanResolvedPackageV1.key,
      ∀ y ∈ selected_dependencies packages x, y ∈ packages.map LeanResolvedPackageV1.key := by
    intro x _ y hy
    unfold selected_dependencies at hy
    split at hy
    · exact absurd hy List.not_mem_nil
    · exact hkey y (List.mem_filter.mp hy).2
  unfold selected_impact_closure
  dsimp only
  rw [mem_worklist_iff _ _ hclosed _ _ (Nat.le_refl _) (by
    intro x hx
    exact hkey x (List.mem_filter.mp hx).2)]
  constructor
  · rintro ⟨target, htarget, hreach⟩
    rw [List.mem_filter] at htarget
    exact ⟨target, htarget.1, htarget.2, hreach⟩
  · rintro ⟨target, htarget, hsome, hreach⟩
    exact ⟨target, List.mem_filter.mpr ⟨htarget, hsome⟩, hreach⟩

/-- The active closure has locked keys only. -/
theorem active_impact_closure_locked {lock : LeanBunLockV1} {update_set : List PackageKeyV1}
    {key : PackageKeyV1} (h : key ∈ active_impact_closure lock update_set) :
    (lock_package lock key).isSome = true := by
  unfold active_impact_closure at h
  dsimp only at h
  rcases worklist_sound _ _ _ _ key h with h | ⟨target, htarget, hreach⟩
  · exact absurd h List.not_mem_nil
  · induction hreach with
    | refl => exact (List.mem_filter.mp htarget).2
    | tail _ hstep _ =>
      unfold Succ active_dependencies at hstep
      split at hstep
      · exact absurd hstep List.not_mem_nil
      · exact (List.mem_filter.mp hstep).2

theorem mem_update_impact {lock : LeanBunLockV1} {packages : List LeanResolvedPackageV1}
    {update_set : List PackageKeyV1} {key : PackageKeyV1} :
    key ∈ update_impact lock packages update_set ↔
      key ∈ active_impact_closure lock update_set ∨
        key ∈ selected_impact_closure packages update_set := by
  unfold update_impact
  dsimp only
  rw [mem_sort_by_key, List.mem_append, List.mem_filter]
  constructor
  · rintro (h | h)
    · exact Or.inl h
    · exact Or.inr h.1
  · rintro (h | h)
    · exact Or.inl h
    · by_cases hin : key ∈ active_impact_closure lock update_set
      · exact Or.inl hin
      · exact Or.inr ⟨h, decide_eq_true hin⟩

/-! ## What the mode check compares -/

/-- **A successful update was compared.** -/
theorem validate_mode_result_update {request : LeanResolutionRequestV1}
    {packages : List LeanResolvedPackageV1} {impact update_set : List PackageKeyV1}
    {lock : LeanBunLockV1} {hs : StrictlySorted id update_set}
    {hb : update_set.length ≤ MAX_PACKAGES_V1} (hlock : request.active_lock = some lock)
    (hmode : request.mode = .Update update_set hs hb)
    (h : validate_mode_result request packages = .ok impact) :
    impact = update_impact lock packages update_set ∧
      (∀ package ∈ packages, changed_from_lock lock package = true → package.key ∈ impact) ∧
      ∀ package ∈ lock.packages, package_of packages package.key = none → package.key ∈ impact := by
  unfold validate_mode_result at h
  rw [hlock, hmode] at h
  dsimp only at h
  split at h
  · cases h
  · split at h
    · cases h
    · next hchanged =>
      split at h
      · cases h
      · next hdisappeared =>
        have himpact := Except.ok.inj h
        rw [List.find?_eq_none] at hchanged hdisappeared
        rw [← himpact]
        refine ⟨rfl, fun package hpackage hdiff => ?_, fun package hpackage hnone => ?_⟩
        · by_contra hout
          exact hchanged package hpackage (by rw [hdiff, decide_eq_true hout]; rfl)
        · by_contra hout
          exact hdisappeared package hpackage (by rw [hnone, decide_eq_true hout]; rfl)

/-! ## Demanded requirements -/

/-- `candidate` is one that `requirement` may select. -/
def Chosen (request : LeanResolutionRequestV1) (candidates : List LeanPackageCandidateV1)
    (requirement : LeanDependencyRequirementV1) (candidate : LeanPackageCandidateV1) : Prop :=
  candidate ∈ candidates ∧ candidate.key = requirement.key ∧
    request_matches_candidate requirement.source candidate = true ∧
    matches_pin request requirement.key candidate = true

/-- The requirements that the root makes, itself or through the candidates its
requirements may select. -/
inductive Demanded (request : LeanResolutionRequestV1) (candidates : List LeanPackageCandidateV1) :
    LeanDependencyRequirementV1 → Prop
  | root {dependency : LakeRootDependencyV1} {source : LeanSourceRequestV1} :
      dependency ∈ request.root.dependencies →
      LeanSourceRequestV1.from_root dependency = .ok source →
      Demanded request candidates ⟨dependency.key, source⟩
  | dependency {requirement next : LeanDependencyRequirementV1}
      {candidate : LeanPackageCandidateV1} :
      Demanded request candidates requirement → Chosen request candidates requirement candidate →
      next ∈ candidate.dependencies → Demanded request candidates next

/-- The keys of demanded update targets, and what these require. -/
inductive Covered (request : LeanResolutionRequestV1) (candidates : List LeanPackageCandidateV1) :
    PackageKeyV1 → Prop
  | target {requirement : LeanDependencyRequirementV1} :
      Demanded request candidates requirement → requirement.key ∈ request.mode.update_set →
      Covered request candidates requirement.key
  | dependency {requirement next : LeanDependencyRequirementV1}
      {candidate : LeanPackageCandidateV1} :
      Covered request candidates requirement.key → Demanded request candidates requirement →
      Chosen request candidates requirement candidate → next ∈ candidate.dependencies →
      Covered request candidates next.key

/-- A matching candidate was requested from the source that it matches. -/
theorem requested_of_match {source : LeanSourceRequestV1} {candidate : LeanPackageCandidateV1}
    (h : request_matches_candidate source candidate = true) : source = candidate.requested := by
  unfold request_matches_candidate at h
  split at h
  · next hrequested _ =>
    simp only [Bool.and_eq_true, decide_eq_true_eq] at h
    obtain ⟨⟨⟨⟨hurl, -⟩, hrevision⟩, hsubdir⟩, -⟩ := h
    rw [hrequested]
    subst hurl hrevision hsubdir
    rfl
  · next hrequested _ =>
    have hversion := of_decide_eq_true h
    rw [hrequested]
    subst hversion
    rfl
  · next hrequested _ =>
    simp only [Bool.and_eq_true, decide_eq_true_eq] at h
    obtain ⟨htoken, -⟩ := h
    rw [hrequested]
    subst htoken
    rfl
  · cases h

/-! ## Demanded requirements are worked off

At the end of the loop the demanded requirements are the worked-off ones, and
the candidate that a requirement may select is the selected one. -/

section Final

variable {request : LeanResolutionRequestV1} {candidates : List LeanPackageCandidateV1}
  {roots : List Declared} {state : ResolutionState}

/-- The state at the end of the loop. -/
def Final (request : LeanResolutionRequestV1) (candidates : List LeanPackageCandidateV1)
    (roots : List Declared) (state : ResolutionState) : Prop :=
  root_requirements request.root = .ok roots ∧
    SelectionInvariant request (sort_by_key candidate_key candidates) roots state
      (state.worked_off roots state.resolution_order) state.resolution_order

/-- The requirements of a selected candidate are worked off. -/
theorem Final.dependency_done (hfinal : Final request candidates roots state)
    {entry : SelectedCandidate} (hentry : entry ∈ state.selected)
    {requirement : LeanDependencyRequirementV1} (h : requirement ∈ entry.candidate.dependencies) :
    ∃ e ∈ state.worked_off roots state.resolution_order, e.2 = requirement := by
  obtain ⟨-, hinv⟩ := hfinal
  obtain ⟨e, he, heq⟩ := exists_package_requirement entry.key h
  refine ⟨e, List.mem_append_right _ (List.mem_flatMap.mpr ⟨entry.key, ?_, ?_⟩), heq⟩
  · rw [hinv.order]
    exact List.mem_map_of_mem hentry
  · unfold ResolutionState.requirements_of
    rw [get_of_mem hinv.distinct hentry]
    exact List.mem_reverse.mpr he

/-- A worked-off requirement may select the candidate that is selected. -/
theorem Final.chosen_selected (hfinal : Final request candidates roots state) {e : Declared}
    (he : e ∈ state.worked_off roots state.resolution_order) :
    ∃ entry, state.get e.2.key = some entry ∧ Chosen request candidates e.2 entry.candidate := by
  obtain ⟨-, hinv⟩ := hfinal
  obtain ⟨entry, hget, hmatch⟩ := hinv.satisfied e he
  obtain ⟨hentry, hkey⟩ := get_eq_some hget
  obtain ⟨w, -, -, hwkey, honly⟩ := hinv.winners entry hentry
  have hmem := mem_matching.mp (by rw [honly]; exact List.mem_singleton_self entry.candidate)
  obtain ⟨hsupplied, -, -, hpin⟩ := hmem
  refine ⟨entry, hget, (mem_sort_by_key candidate_key).mp hsupplied, hkey, hmatch, ?_⟩
  rw [hwkey, hkey] at hpin
  exact hpin

/-- **No other candidate.** A matching source is the source that was requested,
so two requirements that match the selected candidate ask for the same, and the
winner found one candidate only. -/
theorem Final.chosen_unique (hfinal : Final request candidates roots state) {e : Declared}
    (he : e ∈ state.worked_off roots state.resolution_order) {candidate : LeanPackageCandidateV1}
    (hchosen : Chosen request candidates e.2 candidate) :
    ∃ entry ∈ state.selected, entry.key = e.2.key ∧ entry.candidate = candidate := by
  obtain ⟨entry, hget, -, -, hmatch, -⟩ := hfinal.chosen_selected he
  obtain ⟨hentry, hkey⟩ := get_eq_some hget
  obtain ⟨-, hinv⟩ := hfinal
  obtain ⟨w, -, -, hwkey, honly⟩ := hinv.winners entry hentry
  have hwmatch := (mem_matching.mp (by rw [honly]; exact List.mem_singleton_self _)).2.2.1
  have hsource : e.2.source = w.2.source := by
    rw [requested_of_match hmatch, requested_of_match hwmatch]
  obtain ⟨hsupplied, hckey, hcmatch, hcpin⟩ := hchosen
  have hin : candidate ∈ matching request (sort_by_key candidate_key candidates) w.2 := by
    refine mem_matching.mpr ⟨(mem_sort_by_key candidate_key).mpr hsupplied, ?_, ?_, ?_⟩
    · rw [hckey, hwkey, hkey]
    · rw [← hsource]
      exact hcmatch
    · rw [hwkey, hkey]
      exact hcpin
  rw [honly, List.mem_singleton] at hin
  exact ⟨entry, hentry, hkey, hin.symm⟩

/-- Demanded requirements are worked off. -/
theorem Final.demanded_done (hfinal : Final request candidates roots state)
    {requirement : LeanDependencyRequirementV1}
    (h : Demanded request candidates requirement) :
    ∃ e ∈ state.worked_off roots state.resolution_order, e.2 = requirement := by
  induction h with
  | @root dependency source hdependency hsource =>
    obtain ⟨e, he, hkey, hfrom⟩ := exists_root_requirement hfinal.1 hdependency
    rw [hsource] at hfrom
    refine ⟨e, List.mem_append_left _ (List.mem_reverse.mpr he), ?_⟩
    rw [← hkey, Except.ok.inj hfrom]
  | dependency _ hchosen hnext ih =>
    obtain ⟨e, he, rfl⟩ := ih
    obtain ⟨entry, hentry, -, rfl⟩ := hfinal.chosen_unique he hchosen
    exact hfinal.dependency_done hentry hnext

/-- **Every selected candidate is demanded.** Along the path that reaches its
key. -/
theorem Final.selected_demanded (hfinal : Final request candidates roots state)
    {entry : SelectedCandidate} (hentry : entry ∈ state.selected) :
    ∃ requirement, Demanded request candidates requirement ∧ requirement.key = entry.key ∧
      Chosen request candidates requirement entry.candidate := by
  have hdistinct := hfinal.2.distinct
  -- A worked-off requirement for the key is enough if it is demanded.
  have hdone : ∀ e ∈ state.worked_off roots state.resolution_order,
      Demanded request candidates e.2 → ∀ entry ∈ state.selected, entry.key = e.2.key →
        Chosen request candidates e.2 entry.candidate := by
    intro e he _ entry hentry hkey
    obtain ⟨found, hget, hchosen⟩ := hfinal.chosen_selected he
    rw [← hkey, get_of_mem hdistinct hentry] at hget
    rw [Option.some.inj hget]
    exact hchosen
  suffices hall : ∀ key, ReachableKey roots state.candidates key → ∀ entry ∈ state.selected,
      entry.key = key → ∃ requirement, Demanded request candidates requirement ∧
        requirement.key = entry.key ∧ Chosen request candidates requirement entry.candidate from
    hall entry.key (hfinal.2.reachable entry hentry) entry hentry rfl
  intro key hreach
  induction hreach with
  | @root e he =>
    intro entry hentry hkey
    obtain ⟨dependency, hdependency, hdkey, hfrom⟩ := root_requirement_declared hfinal.1 he
    have hdemanded : Demanded request candidates e.2 := by
      have hroot : Demanded request candidates ⟨dependency.key, e.2.source⟩ :=
        Demanded.root hdependency hfrom
      rw [← hdkey] at hroot
      exact hroot
    exact ⟨e.2, hdemanded, hkey.symm,
      hdone e (List.mem_append_left _ (List.mem_reverse.mpr he)) hdemanded entry hentry hkey⟩
  | dependency hcandidate _ hnext ih =>
    intro entry hentry hkey
    obtain ⟨parent, hparent, rfl⟩ := List.mem_map.mp hcandidate
    obtain ⟨requirement, hdemanded, -, hchosen⟩ := ih parent hparent rfl
    have hnextdemanded := Demanded.dependency hdemanded hchosen hnext
    obtain ⟨e, he, rfl⟩ := hfinal.dependency_done hparent hnext
    exact ⟨e.2, hnextdemanded, hkey.symm, hdone e he hnextdemanded entry hentry hkey⟩

/-- The package of a key is the selected candidate. -/
theorem Final.package_of (hfinal : Final request candidates roots state) (key : PackageKeyV1) :
    Resolver.package_of
      (sort_by_key LeanResolvedPackageV1.key (state.selected.map resolved_package)) key =
      (state.get key).map resolved_package := package_of_resolved hfinal.2.distinct key

theorem mem_dependency_keys {candidate : LeanPackageCandidateV1} {key : PackageKeyV1} :
    key ∈ dependency_keys candidate ↔ ∃ next ∈ candidate.dependencies, next.key = key := by
  unfold dependency_keys
  rw [mem_dedup_adjacent, mem_sort_by_key, List.mem_map]

/-- A dependency of a selected candidate is a selected dependency. -/
theorem Final.succ_dependency (hfinal : Final request candidates roots state)
    {entry : SelectedCandidate} (hentry : entry ∈ state.selected)
    {next : LeanDependencyRequirementV1} (hnext : next ∈ entry.candidate.dependencies) :
    Succ (selected_dependencies
      (sort_by_key LeanResolvedPackageV1.key (state.selected.map resolved_package)))
      entry.key next.key := by
  obtain ⟨e, he, rfl⟩ := hfinal.dependency_done hentry hnext
  obtain ⟨found, hget, -⟩ := hfinal.chosen_selected he
  unfold Succ selected_dependencies
  rw [hfinal.package_of, get_of_mem hfinal.2.distinct hentry]
  refine List.mem_filter.mpr ⟨mem_dependency_keys.mpr ⟨e.2, hnext, rfl⟩, ?_⟩
  rw [hfinal.package_of, hget]
  rfl

/-- **The covered keys are the selected closure.** -/
theorem Final.covered_iff (hfinal : Final request candidates roots state) (key : PackageKeyV1) :
    Covered request candidates key ↔ key ∈ selected_impact_closure
      (sort_by_key LeanResolvedPackageV1.key (state.selected.map resolved_package))
      request.mode.update_set := by
  rw [mem_selected_impact_closure]
  constructor
  · intro hcovered
    induction hcovered with
    | target hdemanded htarget =>
      obtain ⟨e, he, rfl⟩ := hfinal.demanded_done hdemanded
      obtain ⟨entry, hget, -⟩ := hfinal.chosen_selected he
      refine ⟨e.2.key, htarget, ?_, Relation.ReflTransGen.refl⟩
      rw [hfinal.package_of, hget]
      rfl
    | dependency _ hdemanded hchosen hnext ih =>
      obtain ⟨target, htarget, hsome, hreach⟩ := ih
      obtain ⟨e, he, rfl⟩ := hfinal.demanded_done hdemanded
      obtain ⟨entry, hentry, hkey, rfl⟩ := hfinal.chosen_unique he hchosen
      refine ⟨target, htarget, hsome, hreach.tail ?_⟩
      rw [← hkey]
      exact hfinal.succ_dependency hentry hnext
  · rintro ⟨target, htarget, hsome, hreach⟩
    induction hreach with
    | refl =>
      obtain ⟨package, hpackage⟩ := Option.isSome_iff_exists.mp hsome
      rw [hfinal.package_of] at hpackage
      obtain ⟨entry, hget, -⟩ := Option.map_eq_some_iff.mp hpackage
      obtain ⟨hentry, hkey⟩ := get_eq_some hget
      obtain ⟨requirement, hdemanded, hrkey, -⟩ := hfinal.selected_demanded hentry
      rw [← hkey, ← hrkey]
      refine Covered.target hdemanded ?_
      rw [hrkey, hkey]
      exact htarget
    | @tail parent next _ hstep ih =>
      unfold Succ selected_dependencies at hstep
      rw [hfinal.package_of] at hstep
      cases hget : state.get parent with
      | none =>
        rw [hget] at hstep
        exact absurd hstep List.not_mem_nil
      | some entry =>
        rw [hget] at hstep
        obtain ⟨hentry, hkey⟩ := get_eq_some hget
        obtain ⟨requirement, hnext, rfl⟩ := mem_dependency_keys.mp (List.mem_filter.mp hstep).1
        obtain ⟨demand, hdemanded, hdkey, hchosen⟩ := hfinal.selected_demanded hentry
        refine Covered.dependency ?_ hdemanded hchosen hnext
        rw [hdkey, hkey]
        exact ih

/-- **Pinning.** A selected package that is locked and not a target is as it is
locked. -/
theorem Final.pinned (hfinal : Final request candidates roots state) {lock : LeanBunLockV1}
    (hlock : request.active_lock = some lock) {entry : SelectedCandidate}
    (hentry : entry ∈ state.selected) {locked : LockedLeanPackageV1}
    (hlocked : lock_package lock entry.key = some locked)
    (htarget : entry.key ∉ request.mode.update_set) :
    candidate_matches_lock entry.candidate locked = true := by
  obtain ⟨requirement, -, hkey, -, -, -, hpin⟩ := hfinal.selected_demanded hentry
  unfold matches_pin Resolver.pinned at hpin
  rw [hkey, if_neg htarget, hlock, Option.bind_some, hlocked] at hpin
  exact hpin

end Final

/-! ## The result -/

/-- Everything that differs from the lock is in the impact closure, and what is
locked and not a target is selected as it is locked. -/
structure UpdateContained (lock : LeanBunLockV1) (update_set : List PackageKeyV1)
    (graph : LeanResolutionGraphV1) : Prop where
  changed : ∀ package ∈ graph.packages, ∀ locked ∈ lock.packages, locked.key = package.key →
    candidate_matches_lock package.candidate locked = false → package.key ∈ graph.impact_closure
  disappeared : ∀ locked ∈ lock.packages, (∀ package ∈ graph.packages, package.key ≠ locked.key) →
    locked.key ∈ graph.impact_closure
  appeared : ∀ package ∈ graph.packages, (∀ locked ∈ lock.packages, locked.key ≠ package.key) →
    package.key ∈ graph.impact_closure
  pinned : ∀ locked ∈ lock.packages, locked.key ∉ update_set → ∀ package ∈ graph.packages,
    package.key = locked.key → candidate_matches_lock package.candidate locked = true

/-- Every root dependency that is not locked is a target, or is required below
one. -/
def NewRootsCovered (request : LeanResolutionRequestV1) (candidates : List LeanPackageCandidateV1)
    (lock : LeanBunLockV1) : Prop :=
  ∀ dependency ∈ request.root.dependencies, lock_package lock dependency.key = none →
    Covered request candidates dependency.key

/-- **New packages.** If the new root dependencies are covered, then so is every
selected package that is not locked: what requires it is new, or a target, or
locked as it is, and then all it requires is locked. -/
theorem Final.appeared_covered {request : LeanResolutionRequestV1}
    {candidates : List LeanPackageCandidateV1} {roots : List Declared} {state : ResolutionState}
    (hfinal : Final request candidates roots state) {lock : LeanBunLockV1}
    (hlock : request.active_lock = some lock) (hnew : NewRootsCovered request candidates lock)
    {key : PackageKeyV1} (hreach : ReachableKey roots state.candidates key)
    (hkey : lock_package lock key = none) : Covered request candidates key := by
  induction hreach with
  | @root e he =>
    obtain ⟨dependency, hdependency, hdkey, -⟩ := root_requirement_declared hfinal.1 he
    rw [hdkey] at hkey ⊢
    exact hnew dependency hdependency hkey
  | @dependency candidate next hcandidate _ hnext ih =>
    obtain ⟨parent, hparent, rfl⟩ := List.mem_map.mp hcandidate
    obtain ⟨requirement, hdemanded, hrkey, hchosen⟩ := hfinal.selected_demanded hparent
    refine Covered.dependency ?_ hdemanded hchosen hnext
    by_cases htarget : requirement.key ∈ request.mode.update_set
    · exact Covered.target hdemanded htarget
    · cases hlocked : lock_package lock parent.key with
      | none =>
        rw [hrkey]
        exact ih hlocked
      | some locked =>
        have hsame : candidate_matches_lock parent.candidate locked = true :=
          hfinal.pinned hlock hparent hlocked (by rw [← hrkey]; exact htarget)
        have hdeps : dependency_keys parent.candidate = locked.dependencies := by
          unfold candidate_matches_lock at hsame
          simp only [Bool.and_eq_true, decide_eq_true_eq] at hsame
          exact hsame.1.1.2
        have hin : next.key ∈ locked.dependencies := by
          rw [← hdeps]
          exact mem_dependency_keys.mpr ⟨next, hnext, rfl⟩
        have hsome := lock_dependency (lock_package_eq_some hlocked).1 hin
        rw [hkey] at hsome
        cases hsome

/-- **What an update may change.** A successful update stays inside the impact
closure exactly when every root dependency that the lock does not have is a
target or required below one. -/
theorem update_contained_iff {request : LeanResolutionRequestV1}
    {candidates : List LeanPackageCandidateV1} {graph : LeanResolutionGraphV1}
    {lock : LeanBunLockV1} {update_set : List PackageKeyV1} {hs : StrictlySorted id update_set}
    {hb : update_set.length ≤ MAX_PACKAGES_V1} (hlock : request.active_lock = some lock)
    (hmode : request.mode = .Update update_set hs hb)
    (h : resolve_lean_dependencies_v1 request candidates = .ok graph) :
    UpdateContained lock update_set graph ↔ NewRootsCovered request candidates lock := by
  obtain ⟨roots, state, hroots, hinv, hpackages, -, -, hresult⟩ := resolve_parts h
  have hfinal : Final request candidates roots state := ⟨hroots, hinv⟩
  obtain ⟨himpact, hchanged, hdisappeared⟩ := validate_mode_result_update hlock hmode hresult
  have htargets : request.mode.update_set = update_set := by rw [hmode]; rfl
  have hsorted : StrictlySorted LeanResolvedPackageV1.key graph.packages := by
    rw [hpackages]
    exact resolved_packages_sorted hinv.distinct
  -- A key that is not locked is in the impact closure if it is covered.
  have hcovered : ∀ key, lock_package lock key = none →
      (key ∈ graph.impact_closure ↔ Covered request candidates key) := by
    intro key hkey
    rw [hfinal.covered_iff, ← hpackages, htargets, himpact, mem_update_impact]
    refine ⟨fun hin => hin.resolve_left fun hactive => ?_, Or.inr⟩
    have hsome := active_impact_closure_locked hactive
    rw [hkey] at hsome
    cases hsome
  constructor
  · intro hcontained dependency hdependency hkey
    obtain ⟨e, he, hekey, -⟩ := exists_root_requirement hroots hdependency
    obtain ⟨entry, hget, -⟩ :=
      hfinal.chosen_selected (List.mem_append_left _ (List.mem_reverse.mpr he))
    obtain ⟨hentry, hentrykey⟩ := get_eq_some hget
    have hpackage : resolved_package entry ∈ graph.packages := by
      rw [hpackages]
      exact mem_resolved_packages.mpr ⟨entry, hentry, rfl⟩
    have hsame : (resolved_package entry).key = dependency.key := hentrykey.trans hekey
    rw [← hcovered dependency.key hkey, ← hsame]
    refine hcontained.appeared _ hpackage ?_
    rw [hsame]
    exact find_key_none.mp hkey
  · intro hnew
    refine ⟨?_, ?_, ?_, ?_⟩
    · intro package hpackage locked hlocked hkey hdiff
      refine hchanged package hpackage ?_
      unfold changed_from_lock
      rw [← hkey, lock_package_of_mem hlocked]
      dsimp only
      rw [hdiff]
      rfl
    · intro locked hlocked hnone
      exact hdisappeared locked hlocked (package_of_eq_none.mpr hnone)
    · intro package hpackage hnone
      have hkey : lock_package lock package.key = none := find_key_none.mpr hnone
      rw [hcovered _ hkey]
      rw [hpackages] at hpackage
      obtain ⟨entry, hentry, rfl⟩ := mem_resolved_packages.mp hpackage
      exact hfinal.appeared_covered hlock hnew (hinv.reachable entry hentry) hkey
    · intro locked hlocked htarget package hpackage hkey
      rw [hpackages] at hpackage
      obtain ⟨entry, hentry, rfl⟩ := mem_resolved_packages.mp hpackage
      have hfound : lock_package lock entry.key = some locked := by
        have hself := lock_package_of_mem hlocked
        rw [← hkey] at hself
        exact hself
      refine hfinal.pinned hlock hentry hfound ?_
      rw [htargets]
      show (resolved_package entry).key ∉ update_set
      rw [hkey]
      exact htarget

/-! ## A lock without its root's packages -/

/-- A lock that was made for the sample root and has none of its packages. -/
def sample_lock : LeanBunLockV1 where
  lean_toolchain := sample_toolchain.lean_toolchain
  lean_compiler_githash := sample_toolchain.compiler_githash
  lake_version := sample_toolchain.lake_version
  root_config_sha256 := digest []
  root_declaration_sha256 := sample_root.identity
  packages := []
  graph_sha256 := hash_graph []
  toolchain_valid := sample_toolchain_locked
  githash_valid := sample_githash_locked
  lake_valid := sample_lake_locked
  count_bounded := Nat.zero_le _
  packages_sorted := List.Pairwise.nil
  graph_valid := by decide +kernel
  graph_hashed := rfl

/-- An update of the sample root. -/
def sample_update (update_set : List PackageKeyV1) (hs : StrictlySorted id update_set)
    (hb : update_set.length ≤ MAX_PACKAGES_V1) : LeanResolutionRequestV1 where
  root := sample_root
  active_lock := some sample_lock
  mode := .Update update_set hs hb
  toolchain := sample_toolchain
  frozen_has_lock := fun h => by cases h
  lock_matches := fun lock h => by
    cases h
    exact ⟨rfl, rfl, rfl, rfl⟩

/-- With target `a` the update is contained: the root requires `a`, and `a`
requires `b`. -/
theorem update_contained_sample : ∃ graph,
    resolve_lean_dependencies_v1 (sample_update [sample_key_a] (by decide +kernel)
      (by decide +kernel)) [sample_candidate_a, sample_candidate_b] = .ok graph ∧
    UpdateContained sample_lock [sample_key_a] graph := by
  have hok : (resolve_lean_dependencies_v1 (sample_update [sample_key_a] (by decide +kernel)
      (by decide +kernel)) [sample_candidate_a, sample_candidate_b]).isOk = true := by
    decide +kernel
  obtain ⟨graph, hgraph⟩ := exists_of_isOk hok
  refine ⟨graph, hgraph, (update_contained_iff rfl rfl hgraph).mpr ?_⟩
  have hroot : Demanded (sample_update [sample_key_a] (by decide +kernel) (by decide +kernel))
      [sample_candidate_a, sample_candidate_b]
      ⟨sample_key_a, .Path ['a'] (by decide +kernel)⟩ :=
    Demanded.root List.mem_cons_self (show LeanSourceRequestV1.from_root
      ⟨sample_key_a, none, .Path ['a'], by simp, by decide +kernel⟩ = .ok _ from rfl)
  have htarget := Covered.target hroot (List.mem_singleton_self _)
  intro dependency hdependency _
  rcases List.mem_cons.mp hdependency with rfl | hdependency
  · exact htarget
  · rw [List.mem_singleton.mp hdependency]
    have hchosen : Chosen (sample_update [sample_key_a] (by decide +kernel) (by decide +kernel))
        [sample_candidate_a, sample_candidate_b]
        ⟨sample_key_a, .Path ['a'] (by decide +kernel)⟩ sample_candidate_a :=
      ⟨List.mem_cons_self, rfl, by decide +kernel, by decide +kernel⟩
    have hnext : (⟨sample_key_b, .Path ['b'] (by decide +kernel)⟩ : LeanDependencyRequirementV1) ∈
        sample_candidate_a.dependencies := List.mem_singleton_self _
    exact Covered.dependency htarget hroot hchosen hnext

/-- With no target the new packages are outside the impact closure, which is
empty. -/
theorem new_root_escapes : ∃ graph,
    resolve_lean_dependencies_v1 (sample_update [] List.Pairwise.nil (Nat.zero_le _))
      [sample_candidate_a, sample_candidate_b] = .ok graph ∧
    graph.impact_closure = [] ∧ ¬UpdateContained sample_lock [] graph := by
  have hok : (resolve_lean_dependencies_v1 (sample_update [] List.Pairwise.nil (Nat.zero_le _))
      [sample_candidate_a, sample_candidate_b]).toOption.map
        (fun graph => (graph.packages.length, graph.impact_closure)) = some (2, []) := by
    decide +kernel
  cases hgraph : resolve_lean_dependencies_v1
      (sample_update [] List.Pairwise.nil (Nat.zero_le _))
      [sample_candidate_a, sample_candidate_b] with
  | error e =>
    rw [hgraph] at hok
    cases hok
  | ok graph =>
    rw [hgraph] at hok
    have hpair := Option.some.inj hok
    have himpact : graph.impact_closure = [] := congrArg Prod.snd hpair
    have hlength : graph.packages.length = 2 := congrArg Prod.fst hpair
    refine ⟨graph, rfl, himpact, fun hcontained => ?_⟩
    obtain ⟨package, hpackage⟩ := List.exists_mem_of_length_pos (by omega : 0 < graph.packages.length)
    have hin := hcontained.appeared package hpackage fun _ h => absurd h List.not_mem_nil
    rw [himpact] at hin
    exact absurd hin List.not_mem_nil

end LeanBun.Resolver
