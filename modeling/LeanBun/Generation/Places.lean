/-
Where the packages of a generation lie.

The final path of a package is made from its key: the scope, unless it is empty,
and the name, each of them joined as it is. A key may hold any text without
control characters, so a scope or a name may have slashes of its own, or be the
name of another package. The constructor compares each decision with the path of
its own key and never two packages with each other.

So the trees of the packages lie apart exactly when the keys do.
-/
import LeanBun.Generation.Vendored

set_option autoImplicit false

namespace LeanBun.Generation

open LeanBun.Lib LeanBun.Core LeanBun.Lock LeanBun.Bridge LeanBun.Resolver LeanBun.Store

/-! ## Paths as lists of components -/

theorem path_components_slash (a b : PathBuf) :
    path_components (a ++ '/' :: b) = path_components a ++ path_components b := by
  unfold path_components split
  rw [List.splitOn_append_cons_self, List.filter_append]

/-- Joining is appending the components, unless the child is absolute. -/
theorem path_components_join (path child : PathBuf) :
    path_components (path_join path child) =
      if child.head? = some '/' then path_components child
      else path_components path ++ path_components child := by
  unfold path_join
  by_cases habs : child.head? = some '/'
  · rw [if_pos habs, if_pos habs]
  · rw [if_neg habs, if_neg habs]
    by_cases hlast : path.getLast? = some '/'
    · rw [if_pos hlast]
      obtain ⟨front, rfl⟩ : ∃ front, path = front ++ ['/'] := by
        obtain ⟨front, hfront⟩ := List.getLast?_eq_some_iff.mp hlast
        exact ⟨front, hfront⟩
      have hnil : path_components [] = [] := by decide
      rw [List.append_assoc, path_components_slash, List.singleton_append, path_components_slash,
        hnil, List.append_nil]
    · rw [if_neg hlast, path_components_slash]

/-- Where a key is placed: below `packages`, unless its scope or name is an
absolute path. -/
def key_place (generation_root : PathBuf) (key : PackageKeyV1) : List Str :=
  if key.name.head? = some '/' then path_components key.name
  else if key.scope.head? = some '/' then path_components key.scope ++ path_components key.name
  else path_components generation_root ++
    ("packages".toList :: (path_components key.scope ++ path_components key.name))

theorem path_components_package_path (generation_root : PathBuf) (key : PackageKeyV1) :
    path_components (package_path generation_root key.scope key.name) =
      key_place generation_root key := by
  have hpackages : path_components (path_join generation_root "packages".toList) =
      path_components generation_root ++ ["packages".toList] := by
    rw [path_components_join, if_neg (by decide)]
    congr 1
  unfold package_path key_place
  by_cases hname : key.name.head? = some '/'
  · rw [if_pos hname]
    by_cases hscope : key.scope = []
    · rw [if_pos hscope, path_components_join, if_pos hname]
    · rw [if_neg hscope, path_components_join, if_pos hname]
  · rw [if_neg hname]
    by_cases hscope : key.scope = []
    · have hnil : path_components [] = [] := by decide
      rw [if_pos hscope, path_components_join, if_neg hname, hpackages, hscope, hnil,
        if_neg (by simp), List.append_assoc, List.nil_append, List.singleton_append]
    · rw [if_neg hscope, path_components_join, if_neg hname, path_components_join, hpackages]
      by_cases habs : key.scope.head? = some '/'
      · rw [if_pos habs, if_pos habs]
      · rw [if_neg habs, if_neg habs, List.append_assoc, List.append_assoc, List.singleton_append]

/-! ## Lying apart -/

/-- Neither path is the other one or lies above it. -/
def Apart (a b : List Str) : Prop := ¬a <+: b ∧ ¬b <+: a

instance (a b : List Str) : Decidable (Apart a b) := inferInstanceAs (Decidable (_ ∧ _))

/-- The final paths of the packages are distinct, and none is a prefix of
another. -/
def PlacesApart (generation : LeanBunGenerationV1) : Prop :=
  (generation.packages.map GenerationPackageV1.final_path).Pairwise fun a b =>
    Apart (path_components a) (path_components b)

/-- No key of the lock is placed at or above the place of another: neither is
the list of parts of one the beginning of the other's. -/
def KeysApart (generation_root : PathBuf) (lock : LeanBunLockV1) : Prop :=
  (lock.packages.map LockedLeanPackageV1.key).Pairwise fun a b =>
    Apart (key_place generation_root a) (key_place generation_root b)

instance (generation_root : PathBuf) (lock : LeanBunLockV1) :
    Decidable (KeysApart generation_root lock) := by
  unfold KeysApart
  infer_instance

/-- The places of the packages are those of the keys. -/
theorem places_apart_of_keys {generation_root : PathBuf} {lock : LeanBunLockV1}
    {placed : List (PackageKeyV1 × VerifiedPackageObjectV1)} {generation : LeanBunGenerationV1}
    (hkeys : placed.map Prod.fst = lock.packages.map LockedLeanPackageV1.key)
    (hpackages : generation.packages = placed.map (generation_package generation_root)) :
    PlacesApart generation ↔ KeysApart generation_root lock := by
  unfold PlacesApart KeysApart
  rw [hpackages, ← hkeys, List.map_map, List.pairwise_map, List.pairwise_map]
  refine iff_of_eq (congrArg (fun R => List.Pairwise R placed) ?_)
  funext a b
  show Apart (path_components (package_path generation_root a.1.scope a.1.name))
    (path_components (package_path generation_root b.1.scope b.1.name)) = _
  rw [path_components_package_path, path_components_package_path]

def outer_key : PackageKeyV1 := ⟨[], "outer".toList, no_scope_valid, by decide +kernel⟩

/-- Its scope is the name of the other package. -/
def inner_key : PackageKeyV1 := ⟨"outer".toList, "inner".toList, by decide +kernel, by decide +kernel⟩

theorem nested_keys_sorted : StrictlySorted id [outer_key, inner_key] := by decide +kernel

/-- A root declaration with both keys resolves. -/
theorem nested_keys_resolve : ∃ graph,
    resolve_lean_dependencies_v1 (vendor_resolution [outer_key, inner_key] nested_keys_sorted
      (by decide +kernel)) ([outer_key, inner_key].map vendor_candidate) = .ok graph ∧
    graph.packages.map LeanResolvedPackageV1.key = [outer_key, inner_key] :=
  vendor_resolves (by decide +kernel)

end LeanBun.Generation
