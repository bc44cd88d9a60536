/-
Which packages have a build key, and what the key depends on.

`Derives` says what the build key of a package is, with no memo and no order of visits:
the digest of its source key, the context and the keys of its direct dependencies. By
the rank of the graph the recursion of `package_build_keys_v1` is well founded, so it
derives a key for exactly the packages whose whole closure is from Git, and the keys are
those of `Derives`. What follows for two locks is then a matter of `Derives` alone.
-/
import LeanBun.Build.PackageReuse
import LeanBun.Core.Evaluate
import LeanBun.Lock.Ranked

set_option autoImplicit false

namespace LeanBun.Build

open LeanBun.Lib LeanBun.Core LeanBun.Lock

/-! ## The graph of a lock -/

section Graph

variable (lock lock' : LeanBunLockV1) (context : PackageBuildContextV1)

/-- A direct dependency. -/
def DependsOn (key dependency : PackageKeyV1) : Prop :=
  ∃ package ∈ lock.packages, package.key = key ∧ dependency ∈ package.dependencies

/-- The dependency closure of a package, with the package itself. -/
def Closure (key below : PackageKeyV1) : Prop := Relation.ReflTransGen (DependsOn lock) key below

/-- A Git package of the lock. -/
def GitPackage (key : PackageKeyV1) : Prop :=
  ∃ package ∈ lock.packages, package.key = key ∧ package.resolved.is_git = true

/-- A Git package with only Git packages below it. -/
def GitClosure (key : PackageKeyV1) : Prop := ∀ below, Closure lock key below → GitPackage lock below

/-- The source key and the edges of a package. -/
def node (key : PackageKeyV1) : Option (Option PackageSourceKeyV1 × List PackageKeyV1) :=
  (lock.packages.find? fun package => decide (package.key = key)).map fun package =>
    (PackageSourceKeyV1.from_locked_package package, package.dependencies)

/-- Two locks that agree on the closure of a package. -/
def SameClosure (key : PackageKeyV1) : Prop :=
  ∀ below, Closure lock key below → node lock below = node lock' below

/-- The build key of a package. -/
inductive Derives : PackageKeyV1 → PackageBuildKeyV1 → Prop
  | package {package : LockedLeanPackageV1} {source : PackageSourceKeyV1}
      {dependencies : List PackageBuildDependencyV1} {build : PackageBuildKeyV1}
      (hmem : package ∈ lock.packages)
      (hsource : PackageSourceKeyV1.from_locked_package package = some source)
      (hedges : dependencies.map PackageBuildDependencyV1.package = package.dependencies)
      (hbelow : ∀ dependency ∈ dependencies, Derives dependency.package dependency.build)
      (hnew : PackageBuildKeyV1.new source context dependencies = .ok build) :
      Derives package.key build

end Graph

section Facts

variable {lock lock' : LeanBunLockV1} {context : PackageBuildContextV1}

theorem find_package {package : LockedLeanPackageV1} (h : package ∈ lock.packages) :
    lock.packages.find? (fun p => decide (p.key = package.key)) = some package :=
  find_key_of_mem (lock.packages_sorted.nodup LockedLeanPackageV1.key) h

theorem node_of_mem {package : LockedLeanPackageV1} (h : package ∈ lock.packages) :
    node lock package.key =
      some (PackageSourceKeyV1.from_locked_package package, package.dependencies) := by
  rw [node, find_package h]
  rfl

theorem node_eq_some {key : PackageKeyV1} {source : Option PackageSourceKeyV1}
    {dependencies : List PackageKeyV1} (h : node lock key = some (source, dependencies)) :
    ∃ package ∈ lock.packages, package.key = key ∧
      PackageSourceKeyV1.from_locked_package package = source ∧
      package.dependencies = dependencies := by
  obtain ⟨package, hfind, hnode⟩ := Option.map_eq_some_iff.mp h
  obtain ⟨hmem, hkey⟩ := find_key_some hfind
  rw [Prod.mk.injEq] at hnode
  exact ⟨package, hmem, hkey, hnode.1, hnode.2⟩

/-- A package has a source key when it is from Git. -/
theorem source_key_isSome (package : LockedLeanPackageV1) :
    (PackageSourceKeyV1.from_locked_package package).isSome = package.resolved.is_git := by
  unfold PackageSourceKeyV1.from_locked_package PackageSourceKeyV1.from_resolved_source
  cases package.resolved <;> rfl

/-- The package of a key is the only one. -/
theorem package_unique {package package' : LockedLeanPackageV1} (h : package ∈ lock.packages)
    (h' : package' ∈ lock.packages) (hkey : package.key = package'.key) : package = package' :=
  lock.packages_sorted.eq_of_key LockedLeanPackageV1.key h h' hkey

theorem GitClosure.below {key below : PackageKeyV1} (h : GitClosure lock key)
    (hbelow : Closure lock key below) : GitClosure lock below :=
  fun further hfurther => h further (hbelow.trans hfurther)

/-- The same closure seen from the other lock. -/
theorem SameClosure.closure {key below : PackageKeyV1} (h : SameClosure lock lock' key)
    (hbelow : Closure lock' key below) : Closure lock key below := by
  induction hbelow with
  | refl => exact Relation.ReflTransGen.refl
  | @tail middle below _ hstep ih =>
    obtain ⟨package, hmem, rfl, hdependency⟩ := hstep
    have hnode := h package.key ih
    rw [node_of_mem hmem] at hnode
    obtain ⟨package', hmem', hkey, -, hedges⟩ := node_eq_some hnode
    rw [← hedges] at hdependency
    exact ih.tail ⟨package', hmem', hkey, hdependency⟩

theorem SameClosure.symm {key : PackageKeyV1} (h : SameClosure lock lock' key) :
    SameClosure lock' lock key :=
  fun below hbelow => (h below (h.closure hbelow)).symm

theorem SameClosure.below {key below : PackageKeyV1} (h : SameClosure lock lock' key)
    (hbelow : Closure lock key below) : SameClosure lock lock' below :=
  fun further hfurther => h further (hbelow.trans hfurther)

theorem closure_edge {package : LockedLeanPackageV1} {dependency : PackageKeyV1}
    (h : package ∈ lock.packages) (hdependency : dependency ∈ package.dependencies) :
    Closure lock package.key dependency :=
  Relation.ReflTransGen.single ⟨package, h, rfl, hdependency⟩

/-- A closure is the package and the closures of its direct dependencies. -/
theorem closure_cases {package : LockedLeanPackageV1} {below : PackageKeyV1}
    (h : package ∈ lock.packages) (hbelow : Closure lock package.key below) :
    below = package.key ∨ ∃ dependency ∈ package.dependencies, Closure lock dependency below := by
  rcases Relation.ReflTransGen.cases_head hbelow with heq | ⟨dependency, hstep, hrest⟩
  · exact Or.inl heq.symm
  · obtain ⟨other, hother, hkey, hdependency⟩ := hstep
    rw [package_unique hother h hkey] at hdependency
    exact Or.inr ⟨dependency, hdependency, hrest⟩

/-- A package whose direct dependencies are all eligible is eligible when it is from Git. -/
theorem git_closure_iff {package : LockedLeanPackageV1} (h : package ∈ lock.packages) :
    GitClosure lock package.key ↔ package.resolved.is_git = true ∧
      ∀ dependency ∈ package.dependencies, GitClosure lock dependency := by
  constructor
  · intro hgit
    obtain ⟨other, hother, hkey, hother_git⟩ := hgit package.key Relation.ReflTransGen.refl
    rw [package_unique hother h hkey] at hother_git
    exact ⟨hother_git, fun dependency hdependency => hgit.below (closure_edge h hdependency)⟩
  · rintro ⟨hgit, hbelow⟩ below hclosure
    rcases closure_cases h hclosure with rfl | ⟨dependency, hdependency, hrest⟩
    · exact ⟨package, h, rfl, hgit⟩
    · exact hbelow dependency hdependency below hrest

/-! ## What a key is -/

/-- Entries for the same packages with the same keys are the same entries. -/
theorem dependencies_eq : ∀ {left right : List PackageBuildDependencyV1},
    left.map PackageBuildDependencyV1.package = right.map PackageBuildDependencyV1.package →
    (∀ e ∈ left, ∀ f ∈ right, e.package = f.package → e.build = f.build) → left = right := by
  intro left
  induction left with
  | nil =>
    intro right hmap _
    rw [List.map_nil] at hmap
    exact (List.map_eq_nil_iff.mp hmap.symm).symm
  | cons e left ih =>
    intro right hmap hbuild
    match right, hmap with
    | f :: right, hmap =>
      rw [List.map_cons, List.map_cons, List.cons.injEq] at hmap
      have hhead : e.build = f.build :=
        hbuild e List.mem_cons_self f List.mem_cons_self hmap.1
      have htail : left = right := ih hmap.2 fun e' he' f' hf' =>
        hbuild e' (List.mem_cons_of_mem _ he') f' (List.mem_cons_of_mem _ hf')
      obtain ⟨package, build⟩ := e
      obtain ⟨package', build'⟩ := f
      rw [htail, show package = package' from hmap.1, show build = build' from hhead]

/-- **Only the closure counts.** A key in one lock is the key in every lock that agrees
with it on the closure of the package. -/
theorem Derives.transfer {key : PackageKeyV1} {build : PackageBuildKeyV1}
    (h : Derives lock context key build) (hsame : SameClosure lock lock' key) :
    Derives lock' context key build := by
  induction h with
  | @package package source dependencies build hmem hsource hedges hbelow hnew ih =>
    have hnode := hsame package.key Relation.ReflTransGen.refl
    rw [node_of_mem hmem, hsource] at hnode
    obtain ⟨package', hmem', hkey, hsource', hedges'⟩ := node_eq_some hnode.symm
    rw [← hkey]
    refine Derives.package hmem' hsource' (hedges.trans hedges'.symm) ?_ hnew
    intro dependency hdependency
    have hedge : dependency.package ∈ package.dependencies := by
      rw [← hedges]
      exact List.mem_map_of_mem hdependency
    exact ih dependency hdependency (hsame.below (closure_edge hmem hedge))

/-- **A package has one key.** -/
theorem Derives.unique {key : PackageKeyV1} {build : PackageBuildKeyV1}
    (h : Derives lock context key build) :
    ∀ {build' : PackageBuildKeyV1}, Derives lock context key build' → build = build' := by
  induction h with
  | @package package source dependencies build hmem hsource hedges hbelow hnew ih =>
    intro build' h'
    generalize hkey : package.key = key at h'
    obtain ⟨hmem', hsource', hedges', hbelow', hnew'⟩ := h'
    rename_i package' source' dependencies'
    obtain rfl := package_unique hmem hmem' hkey
    rw [hsource, Option.some.injEq] at hsource'
    subst hsource'
    have hsame : dependencies = dependencies' := by
      refine dependencies_eq (hedges.trans hedges'.symm) fun e he f hf hpackage => ?_
      have hbelow := hbelow' f hf
      rw [← hpackage] at hbelow
      exact ih e he hbelow
    subst hsame
    rw [hnew, Except.ok.injEq] at hnew'
    exact hnew'

/-- Only eligible packages have a key, in a valid context. -/
theorem Derives.eligible {key : PackageKeyV1} {build : PackageBuildKeyV1}
    (h : Derives lock context key build) : GitClosure lock key ∧ valid_context context := by
  induction h with
  | @package package source dependencies build hmem hsource hedges hbelow hnew ih =>
    refine ⟨(git_closure_iff hmem).mpr ⟨?_, ?_⟩, (PackageBuildKeyV1.new_eq hnew).1⟩
    · rw [← source_key_isSome, hsource]
      rfl
    · intro dependency hdependency
      rw [← hedges] at hdependency
      obtain ⟨entry, hentry, rfl⟩ := List.mem_map.mp hdependency
      exact (ih entry hentry).1

end Facts

/-- Entries for the dependencies of a package are in order. -/
theorem sorted_of_edges {package : LockedLeanPackageV1}
    {dependencies : List PackageBuildDependencyV1}
    (hedges : dependencies.map PackageBuildDependencyV1.package = package.dependencies) :
    StrictlySorted PackageBuildDependencyV1.package dependencies := by
  have hsorted := package.dependencies_sorted
  rw [← hedges, StrictlySorted, List.pairwise_map] at hsorted
  exact hsorted

/-! ## The recursion -/

section Recursion

variable {lock : LeanBunLockV1} {context : PackageBuildContextV1}

/-- Every key of the memo is the key of its package. -/
def Derived (lock : LeanBunLockV1) (context : PackageBuildContextV1) (keys : BuildKeys) : Prop :=
  ∀ entry ∈ keys, Derives lock context entry.1 entry.2

/-- What the map returns is an entry of it. -/
theorem get_mem {keys : BuildKeys} {key : PackageKeyV1} {build : PackageBuildKeyV1}
    (h : keys.get key = some build) : (key, build) ∈ keys := by
  obtain ⟨entry, hfind, hbuild⟩ := Option.map_eq_some_iff.mp h
  obtain ⟨hmem, hkey⟩ := find_key_some hfind
  rw [← hkey, ← hbuild]
  exact hmem

/-- In a memo of keys every entry is what the map returns. -/
theorem Derived.get_eq {keys : BuildKeys} (h : Derived lock context keys) {key : PackageKeyV1}
    {build : PackageBuildKeyV1} (hmem : (key, build) ∈ keys) : keys.get key = some build := by
  cases hfind : keys.find? fun entry => decide (entry.1 = key) with
  | none => exact absurd rfl (find_key_none.mp hfind _ hmem)
  | some entry =>
    obtain ⟨hentry, hkey⟩ := find_key_some hfind
    have hself : Derives lock context key build := h _ hmem
    have hother : Derives lock context key entry.2 := hkey ▸ h entry hentry
    rw [BuildKeys.get, hfind, hself.unique hother]
    rfl

/-- The only way a derivation of a lock fails: an eligible package in a refused context. -/
def Refused (lock : LeanBunLockV1) (context : PackageBuildContextV1) : Prop :=
  ¬valid_context context ∧ ∃ package ∈ lock.packages, GitClosure lock package.key

/-- What a successful derivation of a package leaves: the same open derivations, a memo
that has grown, and a key exactly when the package is eligible. -/
structure Outcome (lock : LeanBunLockV1) (context : PackageBuildContextV1) (key : PackageKeyV1)
    (state : DeriveState) (result : Option PackageBuildKeyV1) (state' : DeriveState) : Prop where
  visiting : state'.visiting = state.visiting
  derived : Derived lock context state'.resolved
  grows : state.resolved ⊆ state'.resolved
  found : ∀ build, result = some build → (key, build) ∈ state'.resolved
  missing : result = none → ¬GitClosure lock key

/-- The open derivations are of distinct packages of the lock, all above the package that
is next, and there is fuel for all the others. -/
structure Open (lock : LeanBunLockV1) (rank : PackageKeyV1 → ℕ) (key : PackageKeyV1)
    (visiting : List PackageKeyV1) (fuel : ℕ) : Prop where
  present : ∃ package ∈ lock.packages, package.key = key
  distinct : visiting.Nodup
  within : ∀ other ∈ visiting, other ∈ lock.packages.map LockedLeanPackageV1.key
  above : ∀ other ∈ visiting, rank key < rank other
  fuelled : lock.packages.length + 1 ≤ visiting.length + fuel

variable {rank : PackageKeyV1 → ℕ}

theorem Open.not_visiting {key : PackageKeyV1} {visiting : List PackageKeyV1} {fuel : ℕ}
    (h : Open lock rank key visiting fuel) : key ∉ visiting :=
  fun hmem => lt_irrefl _ (h.above key hmem)

/-- There are never more open derivations than packages. -/
theorem Open.has_fuel {key : PackageKeyV1} {visiting : List PackageKeyV1} {fuel : ℕ}
    (h : Open lock rank key visiting fuel) : fuel ≠ 0 := by
  have hle := (List.subperm_of_subset h.distinct h.within).length_le
  rw [List.length_map] at hle
  have hfuel := h.fuelled
  omega

/-- Opening a package leaves room for its dependencies. -/
theorem Open.next {package : LockedLeanPackageV1} {visiting : List PackageKeyV1} {fuel : ℕ}
    (hranked : ∀ package ∈ lock.packages, ∀ dependency ∈ package.dependencies,
      (∃ target ∈ lock.packages, target.key = dependency) ∧ rank dependency < rank package.key)
    (hmem : package ∈ lock.packages) (h : Open lock rank package.key visiting (fuel + 1))
    {dependency : PackageKeyV1} (hdependency : dependency ∈ package.dependencies) :
    Open lock rank dependency (package.key :: visiting) fuel := by
  obtain ⟨hpresent, hlower⟩ := hranked package hmem dependency hdependency
  refine ⟨hpresent, List.nodup_cons.mpr ⟨h.not_visiting, h.distinct⟩, ?_, ?_, ?_⟩
  · intro other hother
    rcases List.mem_cons.mp hother with rfl | hother
    · exact List.mem_map_of_mem hmem
    · exact h.within other hother
  · intro other hother
    rcases List.mem_cons.mp hother with rfl | hother
    · exact hlower
    · exact lt_trans hlower (h.above other hother)
  · have hfuel := h.fuelled
    rw [List.length_cons]
    omega

/-- What the loop over the dependencies leaves. -/
structure LoopOutcome (lock : LeanBunLockV1) (context : PackageBuildContextV1)
    (all : List PackageKeyV1) (state : DeriveState)
    (result : Option (List PackageBuildDependencyV1)) (state' : DeriveState) : Prop where
  visiting : state'.visiting = state.visiting
  derived : Derived lock context state'.resolved
  grows : state.resolved ⊆ state'.resolved
  found : ∀ dependencies, result = some dependencies →
    dependencies.map PackageBuildDependencyV1.package = all ∧
      ∀ e ∈ dependencies, (e.package, e.build) ∈ state'.resolved
  missing : result = none → ∃ dependency ∈ all, ¬GitClosure lock dependency

/-- The loop, for a derivation that does what it should on every dependency. -/
theorem derive_dependencies_spec {derive : PackageKeyV1 → DeriveState → Derivation}
    {visiting : List PackageKeyV1} {all : List PackageKeyV1}
    (hderive : ∀ dependency ∈ all, ∀ state : DeriveState, state.visiting = visiting →
      Derived lock context state.resolved →
      (∃ result state', derive dependency state = .ok (result, state') ∧
        Outcome lock context dependency state result state') ∨
      ((∃ e, derive dependency state = .error e) ∧ Refused lock context)) :
    ∀ (rest : List PackageKeyV1) (done : List PackageBuildDependencyV1) (state : DeriveState),
      done.map PackageBuildDependencyV1.package ++ rest = all → state.visiting = visiting →
      Derived lock context state.resolved →
      (∀ e ∈ done, (e.package, e.build) ∈ state.resolved) →
      (∃ result state', derive_dependencies derive rest done state = .ok (result, state') ∧
        LoopOutcome lock context all state result state') ∨
      ((∃ e, derive_dependencies derive rest done state = .error e) ∧ Refused lock context) := by
  intro rest
  induction rest with
  | nil =>
    intro done state hall hvisiting hderived hdone
    rw [List.append_nil] at hall
    refine Or.inl ⟨some done, state, rfl, rfl, hderived, List.Subset.refl _, ?_, ?_⟩
    · intro dependencies hresult
      rw [Option.some.injEq] at hresult
      subst hresult
      exact ⟨hall, hdone⟩
    · intro hnone
      cases hnone
  | cons dependency rest ih =>
    intro done state hall hvisiting hderived hdone
    have hmem : dependency ∈ all := by
      rw [← hall]
      exact List.mem_append_right _ List.mem_cons_self
    rw [derive_dependencies]
    rcases hderive dependency hmem state hvisiting hderived with
      ⟨result, after, hok, hout⟩ | ⟨⟨e, herror⟩, hrefused⟩
    · rw [hok]
      cases result with
      | none =>
        refine Or.inl ⟨none, after, rfl, hout.visiting, hout.derived, hout.grows, ?_, ?_⟩
        · intro dependencies hresult
          cases hresult
        · intro _
          exact ⟨dependency, hmem, hout.missing rfl⟩
      | some build =>
        have hnext : ∀ e ∈ done ++ [(⟨dependency, build⟩ : PackageBuildDependencyV1)],
            (e.package, e.build) ∈ after.resolved := by
          intro e he
          rcases List.mem_append.mp he with he | he
          · exact hout.grows (hdone e he)
          · rw [List.mem_singleton.mp he]
            exact hout.found build rfl
        have hsplit : (done ++ [(⟨dependency, build⟩ : PackageBuildDependencyV1)]).map
            PackageBuildDependencyV1.package ++ rest = all := by
          rw [List.map_append, List.append_assoc]
          exact hall
        rcases ih _ after hsplit (hout.visiting.trans hvisiting) hout.derived hnext with
          ⟨result', state', hrest, hloop⟩ | hfail
        · exact Or.inl ⟨result', state', hrest, hloop.visiting.trans hout.visiting, hloop.derived,
            List.Subset.trans hout.grows hloop.grows, hloop.found, hloop.missing⟩
        · exact Or.inr hfail
    · rw [herror]
      exact Or.inr ⟨⟨e, rfl⟩, hrefused⟩

/-- The dependencies of a package have a key in every valid context. -/
theorem new_of_edges {package : LockedLeanPackageV1} {source : PackageSourceKeyV1}
    {dependencies : List PackageBuildDependencyV1} (hcontext : valid_context context)
    (hedges : dependencies.map PackageBuildDependencyV1.package = package.dependencies) :
    ∃ build, PackageBuildKeyV1.new source context dependencies = .ok build := by
  refine PackageBuildKeyV1.new_ok hcontext (sorted_of_edges hedges) ?_
  have hlength := congrArg List.length hedges
  rw [List.length_map] at hlength
  rw [hlength]
  exact package.counts_bounded.1

/-- **The recursion.** With the open derivations above the package, a derivation gives the
key of the package when it is eligible and none when it is not; it fails only where an
eligible package meets a refused context. -/
theorem derive_package_key_spec
    (hranked : ∀ package ∈ lock.packages, ∀ dependency ∈ package.dependencies,
      (∃ target ∈ lock.packages, target.key = dependency) ∧ rank dependency < rank package.key)
    (fuel : ℕ) : ∀ (key : PackageKeyV1) (state : DeriveState),
    Open lock rank key state.visiting fuel → Derived lock context state.resolved →
    (∃ result state', derive_package_key lock.packages context fuel key state =
        .ok (result, state') ∧ Outcome lock context key state result state') ∨
      ((∃ e, derive_package_key lock.packages context fuel key state = .error e) ∧
        Refused lock context) := by
  induction fuel with
  | zero =>
    intro key state hopen _
    exact absurd rfl hopen.has_fuel
  | succ fuel ih =>
    intro key state hopen hderived
    rw [derive_package_key]
    cases hget : state.resolved.get key with
    | some build =>
      refine Or.inl ⟨some build, state, rfl, rfl, hderived, List.Subset.refl _, ?_, ?_⟩
      · intro build' hbuild
        rw [Option.some.injEq] at hbuild
        subst hbuild
        exact get_mem hget
      · intro hnone
        cases hnone
    | none =>
      dsimp only
      rw [if_neg hopen.not_visiting]
      obtain ⟨package, hmem, rfl⟩ := hopen.present
      rw [find_package hmem]
      dsimp only
      cases hsource : PackageSourceKeyV1.from_locked_package package with
      | none =>
        refine Or.inl ⟨none, _, rfl, List.erase_cons_head _ _, hderived, List.Subset.refl _, ?_, ?_⟩
        · intro build hbuild
          cases hbuild
        · intro _ hgit
          have hsome := source_key_isSome package
          rw [hsource, ((git_closure_iff hmem).mp hgit).1] at hsome
          cases hsome
      | some source =>
        have hbelow := @derive_dependencies_spec lock context
          (derive_package_key lock.packages context fuel) (package.key :: state.visiting)
          package.dependencies
          (fun dependency hdependency state' hvisiting hderived' =>
            ih dependency state' (hvisiting ▸ hopen.next hranked hmem hdependency) hderived')
          package.dependencies [] ⟨state.resolved, package.key :: state.visiting⟩ rfl rfl hderived
          (fun e he => absurd he List.not_mem_nil)
        rcases hbelow with ⟨result, after, hok, hloop⟩ | ⟨⟨e, herror⟩, hrefused⟩
        · rw [hok]
          have hleave : after.visiting.erase package.key = state.visiting := by
            rw [hloop.visiting]
            exact List.erase_cons_head _ _
          cases result with
          | none =>
            refine Or.inl ⟨none, after.leave package.key, rfl, hleave, hloop.derived, hloop.grows,
              ?_, ?_⟩
            · intro build hbuild
              cases hbuild
            · intro _ hgit
              obtain ⟨dependency, hdependency, hnot⟩ := hloop.missing rfl
              exact hnot (hgit.below (closure_edge hmem hdependency))
          | some dependencies =>
            obtain ⟨hedges, hfound⟩ := hloop.found dependencies rfl
            have hkeys : ∀ e ∈ dependencies, Derives lock context e.package e.build :=
              fun e he => hloop.derived _ (hfound e he)
            by_cases hcontext : valid_context context
            · obtain ⟨build, hnew⟩ : ∃ build,
                  PackageBuildKeyV1.new source context dependencies = .ok build :=
                new_of_edges hcontext hedges
              have hself : Derives lock context package.key build :=
                Derives.package hmem hsource hedges hkeys hnew
              refine Or.inl ⟨some build,
                ⟨(package.key, build) :: after.resolved, after.visiting.erase package.key⟩,
                ?_, hleave, ?_, ?_, ?_, ?_⟩
              · show (PackageBuildKeyV1.new source context dependencies >>= _) = _
                rw [hnew]
                rfl
              · intro entry hentry
                rcases List.mem_cons.mp hentry with rfl | hentry
                · exact hself
                · exact hloop.derived entry hentry
              · exact fun entry hentry => List.mem_cons_of_mem _ (hloop.grows hentry)
              · intro build' hbuild
                rw [Option.some.injEq] at hbuild
                rw [← hbuild]
                exact List.mem_cons_self
              · intro hnone
                cases hnone
            · refine Or.inr ⟨?_, hcontext, package, hmem, (git_closure_iff hmem).mpr ⟨?_, ?_⟩⟩
              · show ∃ e, (PackageBuildKeyV1.new source context dependencies >>= _) = .error e
                cases hnew : PackageBuildKeyV1.new source context dependencies with
                | error e => exact ⟨e, rfl⟩
                | ok build => exact absurd (PackageBuildKeyV1.new_eq hnew).1 hcontext
              · rw [← source_key_isSome, hsource]
                rfl
              · intro dependency hdependency
                rw [← hedges] at hdependency
                obtain ⟨entry, hentry, rfl⟩ := List.mem_map.mp hdependency
                exact (hkeys entry hentry).eligible.1
        · rw [herror]
          exact Or.inr ⟨⟨e, rfl⟩, hrefused⟩

/-- What the loop over the packages keeps: after some of them, each has its key or is not
eligible. -/
structure Covered (lock : LeanBunLockV1) (context : PackageBuildContextV1)
    (processed : List LockedLeanPackageV1) (state : DeriveState) : Prop where
  visiting : state.visiting = []
  derived : Derived lock context state.resolved
  covers : ∀ package ∈ processed, GitClosure lock package.key →
    ∃ build, (package.key, build) ∈ state.resolved

/-- One derivation of `package_build_keys_v1`. -/
theorem derive_from_start {package : LockedLeanPackageV1} {state : DeriveState}
    (hmem : package ∈ lock.packages) (hvisiting : state.visiting = [])
    (hderived : Derived lock context state.resolved) :
    (∃ result state', derive_package_key lock.packages context (lock.packages.length + 1)
        package.key state = .ok (result, state') ∧
      Outcome lock context package.key state result state') ∨
    ((∃ e, derive_package_key lock.packages context (lock.packages.length + 1)
        package.key state = .error e) ∧ Refused lock context) := by
  obtain ⟨rank, hranked⟩ := lock.ranked
  refine derive_package_key_spec hranked _ package.key state ?_ hderived
  rw [hvisiting]
  refine ⟨⟨package, hmem, rfl⟩, List.nodup_nil, ?_, ?_, ?_⟩
  · exact fun other hother => absurd hother List.not_mem_nil
  · exact fun other hother => absurd hother List.not_mem_nil
  · rw [List.length_nil, Nat.zero_add]

/-- **Exactly the eligible packages.** The map has the keys of the eligible packages and
nothing else. -/
theorem package_build_keys_derives {keys : BuildKeys}
    (h : package_build_keys_v1 lock context = .ok keys) :
    Derived lock context keys ∧
      ∀ package ∈ lock.packages, GitClosure lock package.key →
        ∃ build, (package.key, build) ∈ keys := by
  unfold package_build_keys_v1 at h
  obtain ⟨state, hfold, h⟩ := bind_eq_ok.mp h
  cases h
  have hcovered : Covered lock context lock.packages state := by
    refine foldlM_invariant (Covered lock context) ?_ ?_ hfold
    · intro processed package before after hprefix hbefore hstep
      have hmem : package ∈ lock.packages :=
        hprefix.subset (List.mem_append_right _ List.mem_cons_self)
      obtain ⟨⟨result, derived⟩, hderive, hstep⟩ := bind_eq_ok.mp hstep
      cases hstep
      rcases derive_from_start hmem hbefore.visiting hbefore.derived with
        ⟨result', state', hok, hout⟩ | ⟨⟨e, herror⟩, -⟩
      · rw [hok, Except.ok.injEq, Prod.mk.injEq] at hderive
        obtain ⟨rfl, rfl⟩ := hderive
        refine ⟨hout.visiting.trans hbefore.visiting, hout.derived, fun other hother hgit => ?_⟩
        rcases List.mem_append.mp hother with hother | hother
        · obtain ⟨build, hbuild⟩ := hbefore.covers other hother hgit
          exact ⟨build, hout.grows hbuild⟩
        · rw [List.mem_singleton.mp hother] at hgit ⊢
          cases result' with
          | none => exact absurd hgit (hout.missing rfl)
          | some build => exact ⟨build, hout.found build rfl⟩
      · rw [herror] at hderive
        cases hderive
    · exact ⟨rfl, fun entry hentry => absurd hentry List.not_mem_nil,
        fun package hpackage => absurd hpackage List.not_mem_nil⟩
  exact ⟨hcovered.derived, hcovered.covers⟩

/-- The loop ends with a map, or an eligible package met a refused context. -/
theorem package_build_keys_total : (∃ keys, package_build_keys_v1 lock context = .ok keys) ∨
    Refused lock context := by
  obtain ⟨step, hkeys, hstep⟩ : ∃ step : DeriveState → LockedLeanPackageV1 → BuildResult DeriveState,
      (package_build_keys_v1 lock context =
        (lock.packages.foldlM step ⟨[], []⟩).map DeriveState.resolved) ∧
      ∀ state package, step state package =
        (derive_package_key lock.packages context (lock.packages.length + 1) package.key state).map
          Prod.snd := ⟨_, rfl, fun _ _ => rfl⟩
  suffices hgen : ∀ (rest : List LockedLeanPackageV1) (state : DeriveState),
      rest ⊆ lock.packages → state.visiting = [] → Derived lock context state.resolved →
      (∃ state', rest.foldlM step state = .ok state') ∨ Refused lock context by
    rcases hgen lock.packages ⟨[], []⟩ (List.Subset.refl _) rfl
      (fun entry hentry => absurd hentry List.not_mem_nil) with ⟨state', hfold⟩ | hrefused
    · refine Or.inl ⟨state'.resolved, ?_⟩
      rw [hkeys, hfold]
      rfl
    · exact Or.inr hrefused
  intro rest
  induction rest with
  | nil =>
    intro state _ _ _
    exact Or.inl ⟨state, rfl⟩
  | cons package rest ih =>
    intro state hsubset hvisiting hderived
    have hmem : package ∈ lock.packages := hsubset List.mem_cons_self
    rcases derive_from_start hmem hvisiting hderived with
      ⟨result, state', hok, hout⟩ | ⟨-, hrefused⟩
    · rw [List.foldlM_cons, hstep, hok]
      exact ih state' (fun other hother => hsubset (List.mem_cons_of_mem _ hother))
        (hout.visiting.trans hvisiting) hout.derived
    · exact Or.inr hrefused

end Recursion

/-! ## Two locks -/

section Change

variable {lock lock' : LeanBunLockV1} {context : PackageBuildContextV1}

/-- The bytes that are hashed for a package. -/
def Hashed (lock : LeanBunLockV1) (context : PackageBuildContextV1) (key : PackageKeyV1)
    (bytes : List UInt8) : Prop :=
  ∃ package ∈ lock.packages, package.key = key ∧ ∃ source dependencies,
    PackageSourceKeyV1.from_locked_package package = some source ∧
    dependencies.map PackageBuildDependencyV1.package = package.dependencies ∧
    (∀ dependency ∈ dependencies, Derives lock context dependency.package dependency.build) ∧
    bytes = build_bytes source context dependencies

/-- A collision of the digest under the key of a package in the closure of another. -/
def Collision (lock lock' : LeanBunLockV1) (context : PackageBuildContextV1)
    (key : PackageKeyV1) : Prop :=
  ∃ below, Closure lock key below ∧ ∃ bytes bytes', Hashed lock context below bytes ∧
    Hashed lock' context below bytes' ∧ bytes ≠ bytes' ∧ Core.digest bytes = Core.digest bytes'

/-- **A key binds the closure.** One key in two locks: they agree on the closure of the
package, or two of the hashed byte strings collide. -/
theorem Derives.binds {key : PackageKeyV1} {build : PackageBuildKeyV1}
    (h : Derives lock context key build) :
    Derives lock' context key build → SameClosure lock lock' key ∨ Collision lock lock' context key := by
  induction h with
  | @package package source dependencies build hmem hsource hedges hbelow hnew ih =>
    intro h'
    generalize hkey : package.key = key at h'
    obtain ⟨hmem', hsource', hedges', hbelow', hnew'⟩ := h'
    rename_i package' source' dependencies'
    rw [← hkey]
    have hsort : sort_by_key PackageBuildDependencyV1.package dependencies = dependencies :=
      (sorted_of_edges hedges).sort_eq
    have hsort' : sort_by_key PackageBuildDependencyV1.package dependencies' = dependencies' :=
      (sorted_of_edges hedges').sort_eq
    have hdigest : Core.digest (build_bytes source context dependencies) =
        Core.digest (build_bytes source' context dependencies') := by
      have heq := (PackageBuildKeyV1.new_eq hnew).2.symm.trans (PackageBuildKeyV1.new_eq hnew').2
      rw [hsort, hsort', PackageBuildKeyV1.mk.injEq] at heq
      exact heq
    by_cases hbytes : build_bytes source context dependencies =
        build_bytes source' context dependencies'
    · have hcount : ∀ {p : LockedLeanPackageV1} {ds : List PackageBuildDependencyV1},
          ds.map PackageBuildDependencyV1.package = p.dependencies → ds.length < 2 ^ 64 := by
        intro p ds hds
        have hlength := congrArg List.length hds
        rw [List.length_map] at hlength
        rw [hlength]
        exact lt_of_le_of_lt p.counts_bounded.1 (by decide)
      obtain ⟨rfl, rfl⟩ := build_bytes_bind (hcount hedges) (hcount hedges') hbytes
      by_cases hall : ∀ dependency ∈ dependencies, SameClosure lock lock' dependency.package
      · refine Or.inl fun below hclosure => ?_
        rcases closure_cases hmem hclosure with rfl | ⟨dependency, hdependency, hrest⟩
        · rw [node_of_mem hmem, hkey, node_of_mem hmem', hsource, hsource', ← hedges, ← hedges']
        · rw [← hedges] at hdependency
          obtain ⟨entry, hentry, rfl⟩ := List.mem_map.mp hdependency
          exact hall entry hentry below hrest
      · -- Some dependency differs between the locks, so a collision lies below it.
        obtain ⟨dependency, hnot⟩ := not_forall.mp hall
        obtain ⟨hdependency, hdiffer⟩ := Classical.not_imp.mp hnot
        have hedge : dependency.package ∈ package.dependencies := by
          rw [← hedges]
          exact List.mem_map_of_mem hdependency
        rcases ih dependency hdependency (hbelow' dependency hdependency) with hsame | hcollision
        · exact absurd hsame hdiffer
        · obtain ⟨below, hclosure, hrest⟩ := hcollision
          exact Or.inr ⟨below, (closure_edge hmem hedge).trans hclosure, hrest⟩
    · refine Or.inr ⟨package.key, Relation.ReflTransGen.refl, _, _,
        ⟨package, hmem, rfl, source, dependencies, hsource, hedges, hbelow, rfl⟩,
        ⟨package', hmem', hkey.symm, source', dependencies', hsource', hedges', hbelow', rfl⟩,
        hbytes, hdigest⟩

end Change

/-! ## The keys of a lock -/

/-- **What the keys of a lock are.** The derivation succeeds when the texts of the context
are accepted or no package is eligible. It then has a key for exactly the packages whose
whole closure is from Git, made of the source key, the context and the keys of the direct
dependencies. In two locks a package has the same key when they agree on its closure, and
when they differ in a package of its closure, another key or a collision. -/
theorem package_build_keys_correct (lock : LeanBunLockV1) (context : PackageBuildContextV1) :
    ((∃ keys, package_build_keys_v1 lock context = .ok keys) ↔
      valid_context context ∨ ∀ package ∈ lock.packages, ¬GitClosure lock package.key) ∧
    ∀ keys, package_build_keys_v1 lock context = .ok keys →
      (∀ key, (keys.get key).isSome = true ↔ GitClosure lock key) ∧
      (∀ package ∈ lock.packages, ∀ build, keys.get package.key = some build →
        ∃ source dependencies, PackageSourceKeyV1.from_locked_package package = some source ∧
          dependencies.map PackageBuildDependencyV1.package = package.dependencies ∧
          (∀ dependency ∈ dependencies, keys.get dependency.package = some dependency.build) ∧
          PackageBuildKeyV1.new source context dependencies = .ok build) ∧
      ∀ lock' keys', package_build_keys_v1 lock' context = .ok keys' → ∀ key,
        (SameClosure lock lock' key → keys.get key = keys'.get key) ∧
        ∀ below, GitClosure lock key → Closure lock key below → node lock below ≠ node lock' below →
          keys.get key ≠ keys'.get key ∨ Collision lock lock' context key := by
  have hget : ∀ {lock : LeanBunLockV1} {keys : BuildKeys},
      package_build_keys_v1 lock context = .ok keys → ∀ key build,
        keys.get key = some build ↔ Derives lock context key build := by
    intro lock keys hkeys key build
    obtain ⟨hderived, hcovers⟩ := package_build_keys_derives hkeys
    constructor
    · intro h
      exact hderived _ (get_mem h)
    · intro h
      obtain ⟨package, hmem, rfl, -⟩ := h.eligible.1 key Relation.ReflTransGen.refl
      obtain ⟨build', hbuild'⟩ := hcovers package hmem h.eligible.1
      have hother : Derives lock context package.key build' := hderived _ hbuild'
      rw [h.unique hother]
      exact hderived.get_eq hbuild'
  refine ⟨⟨?_, ?_⟩, fun keys hkeys => ⟨?_, ?_, ?_⟩⟩
  · rintro ⟨keys, hkeys⟩
    obtain ⟨hderived, hcovers⟩ := package_build_keys_derives hkeys
    by_cases hcontext : valid_context context
    · exact Or.inl hcontext
    · refine Or.inr fun package hmem hgit => ?_
      obtain ⟨build, hbuild⟩ := hcovers package hmem hgit
      exact hcontext (hderived _ hbuild).eligible.2
  · intro h
    rcases @package_build_keys_total lock context with hok | hrefused
    · exact hok
    · obtain ⟨hcontext, package, hmem, hgit⟩ := hrefused
      rcases h with h | h
      · exact absurd h hcontext
      · exact absurd hgit (h package hmem)
  · intro key
    obtain ⟨hderived, hcovers⟩ := package_build_keys_derives hkeys
    constructor
    · intro h
      obtain ⟨build, hbuild⟩ := Option.isSome_iff_exists.mp h
      exact ((hget hkeys key build).mp hbuild).eligible.1
    · intro hgit
      obtain ⟨package, hmem, rfl, -⟩ := hgit key Relation.ReflTransGen.refl
      obtain ⟨build, hbuild⟩ := hcovers package hmem hgit
      rw [hderived.get_eq hbuild]
      rfl
  · intro package hmem build hbuild
    have hderives := (hget hkeys package.key build).mp hbuild
    generalize hkey : package.key = key at hderives
    obtain ⟨hmem', hsource, hedges, hbelow, hnew⟩ := hderives
    rename_i package' source dependencies
    obtain rfl := package_unique hmem hmem' hkey
    exact ⟨source, dependencies, hsource, hedges,
      fun dependency hdependency => (hget hkeys _ _).mpr (hbelow dependency hdependency), hnew⟩
  · intro lock' keys' hkeys' key
    refine ⟨fun hsame => ?_, fun below hgit hclosure hdiffer => ?_⟩
    · cases hfirst : keys.get key with
      | some build =>
        have hderives := ((hget hkeys key build).mp hfirst).transfer hsame
        exact ((hget hkeys' key build).mpr hderives).symm
      | none =>
        cases hsecond : keys'.get key with
        | none => rfl
        | some build =>
          have hback : SameClosure lock' lock key := hsame.symm
          have hderives := ((hget hkeys' key build).mp hsecond).transfer hback
          rw [(hget hkeys key build).mpr hderives] at hfirst
          cases hfirst
    · by_cases heq : keys.get key = keys'.get key
      · refine Or.inr ?_
        obtain ⟨hderived, hcovers⟩ := package_build_keys_derives hkeys
        obtain ⟨package, hmem, rfl, -⟩ := hgit key Relation.ReflTransGen.refl
        obtain ⟨build, hbuild⟩ := hcovers package hmem hgit
        have hfirst := hderived.get_eq hbuild
        have hsecond := heq.symm.trans hfirst
        rcases ((hget hkeys _ build).mp hfirst).binds ((hget hkeys' _ build).mp hsecond) with
          hsame | hcollision
        · exact absurd (hsame below hclosure) hdiffer
        · exact hcollision
      · exact Or.inl heq

/-! ## A pair of packages -/

/-- The sample source. -/
def sample_url : CanonicalSourceUrlV1 :=
  ⟨"https://example.test/b".toList, "https://example.test/b".toList, by decide +kernel⟩

/-- A Git package with no dependencies but the given ones. -/
def sample_package (name : Char) (tree : Sha256) (dependencies : List PackageKeyV1)
    (hname : valid_atom [name] MAX_NAME_BYTES false = true)
    (hcount : dependencies.length ≤ MAX_PACKAGE_DEPENDENCIES_V1)
    (hsorted : StrictlySorted id dependencies)
    (hself : (⟨[], [name], no_scope_valid, hname⟩ : PackageKeyV1) ∉ dependencies) :
    LockedLeanPackageV1 where
  key := ⟨[], [name], no_scope_valid, hname⟩
  requested := .Git sample_url none (no_text_valid _)
  resolved := .Git sample_url (List.replicate 40 'b') none (by decide +kernel) no_subdir_valid
  download_integrity := some (digest [])
  source_tree_sha256 := tree
  config_sha256 := digest []
  manifest_sha256 := none
  dependencies := dependencies
  provenance_digests := [digest []]
  selected_source_identity := digest []
  counts_bounded := ⟨hcount, by decide⟩
  integrity_present := fun h => Option.some_ne_none _ h.2
  compatible := by simp [sources_compatible]
  dependencies_sorted := hsorted
  no_self_dependency := hself
  provenance_sorted := empty_digest_sorted
  provenance_present := empty_digest_present

/-- `b`, with a source tree. -/
def sample_b (tree : Sha256) : LockedLeanPackageV1 :=
  sample_package 'b' tree [] b_name_valid (Nat.zero_le _) no_keys_sorted List.not_mem_nil

theorem sample_b_key (tree tree' : Sha256) : (sample_b tree).key = (sample_b tree').key := rfl

/-- `a`, which depends on `b`. -/
def sample_a : LockedLeanPackageV1 :=
  sample_package 'a' (digest []) [(sample_b (digest [])).key] a_name_valid (by decide +kernel)
    (List.pairwise_singleton _ _) (by decide +kernel)

/-- The lock of both. -/
def pair_lock (tree : Sha256)
    (hsorted : StrictlySorted LockedLeanPackageV1.key [sample_a, sample_b tree])
    (hgraph : validate_graph [sample_a, sample_b tree] = .ok ()) : LeanBunLockV1 where
  lean_toolchain := "leanprover/lean4:v4.0.0".toList
  lean_compiler_githash := List.replicate 40 'c'
  lake_version := "5.0.0".toList
  root_config_sha256 := digest []
  root_declaration_sha256 := digest []
  packages := [sample_a, sample_b tree]
  graph_sha256 := hash_graph [sample_a, sample_b tree]
  toolchain_valid := by decide +kernel
  githash_valid := by decide +kernel
  lake_valid := lake_five_valid
  count_bounded := Nat.le_of_ble_eq_true rfl
  packages_sorted := hsorted
  graph_valid := hgraph
  graph_hashed := rfl

/-- The lock, and the lock after a change of the tree of `b`. -/
def old_lock : LeanBunLockV1 := pair_lock (digest []) (by decide +kernel) (by decide +kernel)

def new_lock : LeanBunLockV1 := pair_lock (digest [0]) (by decide +kernel) (by decide +kernel)

def sample_context : PackageBuildContextV1 where
  lean_toolchain := "leanprover/lean4:v4.0.0".toList
  compiler_githash := List.replicate 40 'c'
  lake_version := "5.0.0".toList
  platform := "linux".toList
  platform_abi_sha256 := digest []
  build_policy_sha256 := digest []
  facets_sha256 := digest []
  environment_sha256 := digest []
  lake_executable_sha256 := digest []

theorem old_lock_eligible : GitClosure old_lock sample_a.key := by
  have hb : GitClosure old_lock (sample_b (digest [])).key := by
    refine (git_closure_iff (List.mem_cons_of_mem _ List.mem_cons_self)).mpr ⟨rfl, ?_⟩
    exact fun dependency hdependency => absurd hdependency List.not_mem_nil
  refine (git_closure_iff List.mem_cons_self).mpr ⟨rfl, fun dependency hdependency => ?_⟩
  rw [List.mem_singleton.mp hdependency]
  exact hb

/-- The change of `b` is seen in its node. -/
theorem locks_differ : node old_lock (sample_b (digest [])).key ≠
    node new_lock (sample_b (digest [])).key := by
  have hold := @node_of_mem old_lock (sample_b (digest []))
    (List.mem_cons_of_mem _ List.mem_cons_self)
  have hnew := @node_of_mem new_lock (sample_b (digest [0]))
    (List.mem_cons_of_mem _ List.mem_cons_self)
  rw [hold, sample_b_key (digest []) (digest [0]), hnew]
  intro h
  rw [Option.some.injEq, Prod.mk.injEq] at h
  have hsource := h.1
  change some (PackageSourceKeyV1.mk (hash_git _ _ _ _)) = some (PackageSourceKeyV1.mk
    (hash_git _ _ _ _)) at hsource
  rw [Option.some.injEq, PackageSourceKeyV1.mk.injEq, hash_git, hash_git] at hsource
  simp only [digest_eq_evaluate] at hsource
  revert hsource
  decide +kernel

/-- The derivation of both locks, and what the change of `b` does to `a`. -/
theorem package_build_keys_sample : ∃ keys keys',
    package_build_keys_v1 old_lock sample_context = .ok keys ∧
    package_build_keys_v1 new_lock sample_context = .ok keys' ∧
    (keys.get sample_a.key).isSome = true ∧
    (keys.get sample_a.key ≠ keys'.get sample_a.key ∨
      Collision old_lock new_lock sample_context sample_a.key) := by
  have hcontext : valid_context sample_context := by decide +kernel
  have hold := package_build_keys_correct old_lock sample_context
  have hnew := package_build_keys_correct new_lock sample_context
  obtain ⟨keys, hkeys⟩ := hold.1.mpr (Or.inl hcontext)
  obtain ⟨keys', hkeys'⟩ := hnew.1.mpr (Or.inl hcontext)
  obtain ⟨heligible, -, hchange⟩ := hold.2 keys hkeys
  refine ⟨keys, keys', hkeys, hkeys', (heligible _).mpr old_lock_eligible, ?_⟩
  have hedge : Closure old_lock sample_a.key (sample_b (digest [])).key :=
    closure_edge List.mem_cons_self List.mem_cons_self
  exact (hchange new_lock keys' hkeys' sample_a.key).2 _ old_lock_eligible hedge locks_differ

/-- **A context can be refused.** With an empty toolchain there are no keys at all, though
`a` is eligible. -/
theorem context_refused : GitClosure old_lock sample_a.key ∧
    ∀ keys, package_build_keys_v1 old_lock { sample_context with lean_toolchain := [] } ≠
      .ok keys := by
  refine ⟨old_lock_eligible, fun keys hkeys => ?_⟩
  obtain ⟨hderived, hcovers⟩ := package_build_keys_derives hkeys
  obtain ⟨build, hbuild⟩ := hcovers sample_a List.mem_cons_self old_lock_eligible
  have hvalid := (hderived _ hbuild).eligible.2.1
  cases hvalid

end LeanBun.Build
