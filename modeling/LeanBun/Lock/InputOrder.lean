/-
The order of the inputs.

A package sorts its dependencies and its provenance digests, a lock sorts its packages,
and what is checked afterwards is checked on sorted lists. So neither the value nor the
error depends on the order in which anything was given, at either level.
-/
import LeanBun.Lock.Codec

set_option autoImplicit false

namespace LeanBun.Lock

open LeanBun.Lib LeanBun.Core

/-! ## Packages -/

/-- The arguments of `LockedLeanPackageV1::new`. -/
structure PackageInput where
  key : PackageKeyV1
  requested : RequestedPackageSourceV1
  resolved : ResolvedPackageSourceV1
  download_integrity : Option Sha256
  source_tree_sha256 : Sha256
  config_sha256 : Sha256
  manifest_sha256 : Option Sha256
  dependencies : List PackageKeyV1
  provenance_digests : List Sha256
  selected_source_identity : Sha256

/-- `LockedLeanPackageV1::new` on its arguments. -/
def PackageInput.locked (input : PackageInput) : LockResult LockedLeanPackageV1 :=
  LockedLeanPackageV1.new input.key input.requested input.resolved input.download_integrity
    input.source_tree_sha256 input.config_sha256 input.manifest_sha256 input.dependencies
    input.provenance_digests input.selected_source_identity

/-- The same arguments, with the two lists in another order. -/
structure PackageInput.Reordered (input input' : PackageInput) : Prop where
  same : { input with dependencies := [], provenance_digests := [] } =
    { input' with dependencies := [], provenance_digests := [] }
  dependencies : input.dependencies.Perm input'.dependencies
  provenance_digests : input.provenance_digests.Perm input'.provenance_digests

/-- The constructor looks at the sorted lists and their lengths only. -/
theorem LockedLeanPackageV1.new_perm (key : PackageKeyV1) (requested : RequestedPackageSourceV1)
    (resolved : ResolvedPackageSourceV1) (download_integrity : Option Sha256)
    (source_tree_sha256 config_sha256 : Sha256) (manifest_sha256 : Option Sha256)
    {dependencies dependencies' : List PackageKeyV1} {provenance provenance' : List Sha256}
    (selected_source_identity : Sha256) (hdependencies : dependencies.Perm dependencies')
    (hprovenance : provenance.Perm provenance') :
    LockedLeanPackageV1.new key requested resolved download_integrity source_tree_sha256
        config_sha256 manifest_sha256 dependencies provenance selected_source_identity =
      LockedLeanPackageV1.new key requested resolved download_integrity source_tree_sha256
        config_sha256 manifest_sha256 dependencies' provenance' selected_source_identity := by
  have hsorted : sort_by_key id dependencies = sort_by_key id dependencies' :=
    sort_by_key_perm_eq_of_injective id hdependencies Function.injective_id
  have hdigests : sort_by_key Sha256.key provenance = sort_by_key Sha256.key provenance' :=
    sort_by_key_perm_eq_of_injective Sha256.key hprovenance Sha256.key_injective
  unfold LockedLeanPackageV1.new
  refine ensure_bind_congr (by rw [hdependencies.length_eq, hprovenance.length_eq]) fun _ _ => ?_
  refine ensure_bind_congr Iff.rfl fun _ _ => ?_
  refine ensure_bind_congr Iff.rfl fun _ _ => ?_
  refine ensure_bind_congr (by rw [hsorted]) fun _ _ => ?_
  refine ensure_bind_congr (by rw [hsorted]) fun _ _ => ?_
  refine ensure_bind_congr (by rw [hdigests]) fun _ _ => ?_
  refine ensure_bind_congr (by rw [hdigests]) fun _ _ => ?_
  simp only [hsorted, hdigests]

/-- **A package does not depend on the order of its lists.** -/
theorem PackageInput.Reordered.locked_eq {input input' : PackageInput}
    (h : input.Reordered input') : input.locked = input'.locked := by
  obtain ⟨key, requested, resolved, integrity, tree, config, manifest, deps, digests, source⟩ := input
  obtain ⟨key', requested', resolved', integrity', tree', config', manifest', deps', digests',
    source'⟩ := input'
  have hsame := h.same
  simp only [PackageInput.mk.injEq, true_and] at hsame
  obtain ⟨rfl, rfl, rfl, rfl, rfl, rfl, rfl, rfl⟩ := hsame
  exact LockedLeanPackageV1.new_perm key requested resolved integrity tree config manifest source
    h.dependencies h.provenance_digests

/-! ## Locks -/

/-- **A lock does not depend on the order of its packages.** With a key given twice both
orders are refused; otherwise both are sorted to one list. -/
theorem LeanBunLockV1.new_perm (lean_toolchain lean_compiler_githash lake_version : Str)
    (root_config_sha256 root_declaration_sha256 : Sha256)
    {packages packages' : List LockedLeanPackageV1} (h : packages.Perm packages') :
    LeanBunLockV1.new lean_toolchain lean_compiler_githash lake_version root_config_sha256
        root_declaration_sha256 packages =
      LeanBunLockV1.new lean_toolchain lean_compiler_githash lake_version root_config_sha256
        root_declaration_sha256 packages' := by
  have hkeys : (packages.map LockedLeanPackageV1.key).Perm (packages'.map LockedLeanPackageV1.key) :=
    h.map _
  have hduplicate : adjacent_equal LockedLeanPackageV1.key
      (sort_by_key LockedLeanPackageV1.key packages) = false ↔
      adjacent_equal LockedLeanPackageV1.key (sort_by_key LockedLeanPackageV1.key packages') =
        false := by
    rw [adjacent_equal_sort_iff, adjacent_equal_sort_iff, hkeys.nodup_iff]
  unfold LeanBunLockV1.new
  refine ensure_bind_congr Iff.rfl fun _ _ => ?_
  refine ensure_bind_congr Iff.rfl fun _ _ => ?_
  refine ensure_bind_congr Iff.rfl fun _ _ => ?_
  refine ensure_bind_congr (by rw [h.length_eq]) fun _ _ => ?_
  refine ensure_bind_congr hduplicate fun hdistinct _ => ?_
  -- without a duplicate both are sorted to one list
  have hsorted : sort_by_key LockedLeanPackageV1.key packages =
      sort_by_key LockedLeanPackageV1.key packages' :=
    sort_by_key_perm_eq LockedLeanPackageV1.key h ((adjacent_equal_sort_iff _).mp hdistinct)
  dsimp only
  split
  · next e he =>
    split
    · next e' he' =>
      rw [hsorted, he'] at he
      exact congrArg Except.error (Except.error.inj he).symm
    · next hok =>
      rw [hsorted, hok] at he
      cases he
  · next hok =>
    split
    · next e' he' =>
      rw [hsorted, he'] at hok
      cases hok
    · exact congrArg Except.ok (LeanBunLockV1.ext rfl rfl rfl rfl rfl hsorted)

/-- The arguments of all packages, each in another order, and the packages in another. -/
def InputsReordered (inputs inputs' : List PackageInput) : Prop :=
  ∃ middle, List.Forall₂ PackageInput.Reordered inputs middle ∧ middle.Perm inputs'

/-- What becomes of every package is the same in both orders. -/
theorem InputsReordered.locked_perm {inputs inputs' : List PackageInput}
    (h : InputsReordered inputs inputs') :
    (inputs.map PackageInput.locked).Perm (inputs'.map PackageInput.locked) := by
  obtain ⟨middle, hmiddle, hperm⟩ := h
  have hsame : inputs.map PackageInput.locked = middle.map PackageInput.locked := by
    induction hmiddle generalizing inputs' with
    | nil => rfl
    | cons hone hrest ih => rw [List.map_cons, List.map_cons, hone.locked_eq, ih (List.Perm.refl _)]
  rw [hsame]
  exact hperm.map _

/-- The packages of a list of arguments, when all are accepted. -/
theorem mapM_locked {inputs : List PackageInput} {packages : List LockedLeanPackageV1}
    (h : inputs.mapM PackageInput.locked = .ok packages) :
    inputs.map PackageInput.locked = packages.map Except.ok := by
  have hpairs := mapM_eq_ok_iff.mp h
  clear h
  induction hpairs with
  | nil => rfl
  | cons hone _ ih => rw [List.map_cons, List.map_cons, hone, ih]

/-- **Order independence.** Whatever the order of the packages, of their dependencies and of
their provenance digests: every package is accepted as the same value or refused with the
same error, and the lock of the packages is the same value, with the same text and identity,
or the same error. -/
theorem lock_order_independent (inputs inputs' : List PackageInput)
    (h : InputsReordered inputs inputs') :
    (∀ input input' : PackageInput, input.Reordered input' → input.locked = input'.locked) ∧
    (inputs.map PackageInput.locked).Perm (inputs'.map PackageInput.locked) ∧
    ∀ packages packages' : List LockedLeanPackageV1,
      inputs.mapM PackageInput.locked = .ok packages →
      inputs'.mapM PackageInput.locked = .ok packages' →
      ∀ (lean_toolchain lean_compiler_githash lake_version : Str)
        (root_config_sha256 root_declaration_sha256 : Sha256),
        let lock := LeanBunLockV1.new lean_toolchain lean_compiler_githash lake_version
          root_config_sha256 root_declaration_sha256 packages
        let lock' := LeanBunLockV1.new lean_toolchain lean_compiler_githash lake_version
          root_config_sha256 root_declaration_sha256 packages'
        lock = lock' ∧ lock.map LeanBunLockV1.to_canonical_text =
          lock'.map LeanBunLockV1.to_canonical_text ∧
        lock.map LeanBunLockV1.identity = lock'.map LeanBunLockV1.identity := by
  refine ⟨fun _ _ hone => hone.locked_eq, h.locked_perm, ?_⟩
  intro packages packages' hpackages hpackages' toolchain githash lake config declaration
  have hperm := h.locked_perm
  rw [mapM_locked hpackages, mapM_locked hpackages'] at hperm
  have hsame : packages.Perm packages' := by
    rwa [List.map_perm_map_iff fun _ _ hok => Except.ok.inj hok] at hperm
  have hlock := LeanBunLockV1.new_perm toolchain githash lake config declaration hsame
  exact ⟨hlock, by rw [hlock], by rw [hlock]⟩

/-! ## A package with two lists to sort -/

def sample_digest (n : UInt8) : Sha256 := Sha256.repeated n

def sample_path_key (c : Char) (h : valid_atom [c] MAX_NAME_BYTES false = true) : PackageKeyV1 :=
  ⟨[], [c], no_scope_valid, h⟩

/-- A path snapshot `p/c`. -/
def sample_input (key : PackageKeyV1) (dependencies : List PackageKeyV1)
    (provenance_digests : List Sha256) : PackageInput where
  key := key
  requested := .PathSnapshot ['p'] (by decide)
  resolved := .PathSnapshot ['p'] (by decide)
  download_integrity := none
  source_tree_sha256 := sample_digest 1
  config_sha256 := sample_digest 2
  manifest_sha256 := none
  dependencies := dependencies
  provenance_digests := provenance_digests
  selected_source_identity := sample_digest 3

def sample_key_c : PackageKeyV1 := sample_path_key 'c' (by decide)
def sample_key_d : PackageKeyV1 := sample_path_key 'd' (by decide)
def sample_key_e : PackageKeyV1 := sample_path_key 'e' (by decide)

/-- `c` depends on `d` and `e`. -/
def sample_inputs : List PackageInput :=
  [sample_input sample_key_c [sample_key_d, sample_key_e] [sample_digest 4, sample_digest 5],
    sample_input sample_key_d [] [sample_digest 4], sample_input sample_key_e [] [sample_digest 4]]

/-- The same in another order throughout. -/
def sample_reordered : List PackageInput :=
  [sample_input sample_key_d [] [sample_digest 4],
    sample_input sample_key_c [sample_key_e, sample_key_d] [sample_digest 5, sample_digest 4],
    sample_input sample_key_e [] [sample_digest 4]]

theorem sample_inputs_reordered : InputsReordered sample_inputs sample_reordered := by
  have hsame : ∀ input : PackageInput, input.Reordered input :=
    fun _ => ⟨rfl, List.Perm.refl _, List.Perm.refl _⟩
  have hone : (sample_input sample_key_c [sample_key_d, sample_key_e]
      [sample_digest 4, sample_digest 5]).Reordered
      (sample_input sample_key_c [sample_key_e, sample_key_d] [sample_digest 5, sample_digest 4]) :=
    ⟨rfl, List.Perm.swap _ _ _, List.Perm.swap _ _ _⟩
  exact ⟨_, .cons hone (.cons (hsame _) (.cons (hsame _) .nil)), List.Perm.swap _ _ _⟩

theorem lock_order_independent_sample : ∃ packages packages',
    sample_inputs.mapM PackageInput.locked = .ok packages ∧
    sample_reordered.mapM PackageInput.locked = .ok packages' ∧
    LeanBunLockV1.new ['l'] (List.replicate 40 'a') ['v'] (sample_digest 6) (sample_digest 7) packages =
      LeanBunLockV1.new ['l'] (List.replicate 40 'a') ['v'] (sample_digest 6) (sample_digest 7)
        packages' := by
  have hboth : ((sample_inputs.mapM PackageInput.locked).isOk &&
      (sample_reordered.mapM PackageInput.locked).isOk) = true := by decide +kernel
  rw [Bool.and_eq_true] at hboth
  obtain ⟨packages, hpackages⟩ := exists_of_isOk hboth.1
  obtain ⟨packages', hpackages'⟩ := exists_of_isOk hboth.2
  have hlock := (lock_order_independent sample_inputs sample_reordered sample_inputs_reordered).2.2
    packages packages' hpackages hpackages' ['l'] (List.replicate 40 'a') ['v'] (sample_digest 6)
    (sample_digest 7)
  exact ⟨packages, packages', hpackages, hpackages', hlock.1⟩

end LeanBun.Lock
