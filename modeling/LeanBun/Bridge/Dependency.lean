/-
The constructors of a root dependency and of the root declaration.
-/
import LeanBun.Bridge.Projection

set_option autoImplicit false

namespace LeanBun.Bridge

open LeanBun.Lib LeanBun.Core LeanBun.Lock

/-- `validate_https_url`. -/
def validate_https_url (value : Str) :
    BridgeResult (PLift ((valid_atom value MAX_TEXT_BYTES false && normalized_https_url value) =
      true)) := do
  let ⟨htext⟩ ← validate_text value MAX_TEXT_BYTES false "dependency URL"
  let ⟨hurl⟩ ← ensure (normalized_https_url value = true)
    ⟨.InvalidField, "dependency URL must be normalized HTTPS"⟩
  return ⟨by rw [htext, hurl]; rfl⟩

/-- The checks of a source in `LakeRootDependencyV1::new`. -/
def validate_source (source : LakeDependencySourceV1) :
    BridgeResult (PLift (valid_dependency_source source = true)) :=
  match source with
  | .Git url revision subdir => do
    let ⟨hurl⟩ ← validate_https_url url
    let ⟨hrevision⟩ ← validate_optional
      (fun value => validate_text value MAX_TEXT_BYTES false "dependency Git revision") revision
    let ⟨hsubdir⟩ ← validate_optional
      (fun value => validate_relative_path value "dependency Git subdir") subdir
    return ⟨by
      rw [valid_dependency_source, hurl, (Option.all_eq_true _ _).mpr hrevision]
      exact (Option.all_eq_true _ _).mpr hsubdir⟩
  | .Path directory => validate_relative_path directory "dependency path"
  | .Reservoir => .ok ⟨rfl⟩

/-- `LakeRootDependencyV1::new`. -/
def LakeRootDependencyV1.new (key : PackageKeyV1) (version : Option Str)
    (source : LakeDependencySourceV1) : BridgeResult LakeRootDependencyV1 := do
  let ⟨hversion⟩ ← validate_optional
    (fun value => validate_text value MAX_TEXT_BYTES false "dependency version") version
  let ⟨hsource⟩ ← validate_source source
  return ⟨key, version, source, hversion, hsource⟩

theorem LakeRootDependencyV1.new_eq_ok {key : PackageKeyV1} {version : Option Str}
    {source : LakeDependencySourceV1} {dependency : LakeRootDependencyV1}
    (h : LakeRootDependencyV1.new key version source = .ok dependency) :
    dependency.key = key ∧ dependency.version = version ∧ dependency.source = source := by
  obtain ⟨_, -, h⟩ := bind_eq_ok.mp h
  obtain ⟨_, -, h⟩ := bind_eq_ok.mp h
  cases h
  exact ⟨rfl, rfl, rfl⟩

/-- A declaration has the dependencies it is made of, in the order of their keys. -/
theorem LakeRootDeclarationV1.new_eq_ok {root_name config_file : Str}
    {dependencies : List LakeRootDependencyV1} {declaration : LakeRootDeclarationV1}
    (h : LakeRootDeclarationV1.new root_name config_file dependencies = .ok declaration) :
    declaration.root_name = root_name ∧
      declaration.dependencies = sort_by_key LakeRootDependencyV1.key dependencies := by
  obtain ⟨_, -, h⟩ := bind_eq_ok.mp h
  obtain ⟨_, -, h⟩ := bind_eq_ok.mp h
  obtain ⟨_, -, h⟩ := bind_eq_ok.mp h
  obtain ⟨_, -, h⟩ := bind_eq_ok.mp h
  cases h
  exact ⟨rfl, rfl⟩

end LeanBun.Bridge
