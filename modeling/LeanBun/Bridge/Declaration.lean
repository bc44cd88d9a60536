/-
The root declaration of a Lake project.

`LakeRootDeclarationV1` is the list of direct dependencies, sorted by package key
and without duplicates, under a root name and a configuration file. Its identity
is a digest over all of them. The index of a dependency in this sorted list is
what the resolver calls its declaration index.
-/
import LeanBun.Lock.Model

set_option autoImplicit false

namespace LeanBun.Bridge

open LeanBun.Lib LeanBun.Core LeanBun.Lock

def MAX_ROOT_DEPENDENCIES_V1 : ℕ := 4096
def MAX_SHORT_BYTES : ℕ := 256
def MAX_TEXT_BYTES : ℕ := 4096

/-- The kinds this part of the crate reports. -/
inductive LakeBridgeErrorKind where
  | InvalidField
  | LimitExceeded
  | DuplicateDependency
  | DuplicatePackage
  | MissingPackage
  | ExtraPackage
  | SourceKindDrift
  | SourceValueDrift
  | NonBunRuntimeOverride
deriving DecidableEq

structure LakeBridgeError where
  kind : LakeBridgeErrorKind
  message : String
deriving DecidableEq

abbrev BridgeResult (α : Type) := Except LakeBridgeError α

/-- What the crate's `validate_text` accepts: the same as an atom of the lock. -/
def validate_text (value : Str) (maximum : ℕ) (allow_empty : Bool) (label : String) :
    BridgeResult (PLift (valid_atom value maximum allow_empty = true)) :=
  ensure _ ⟨.InvalidField, label ++ " is empty, too long, or contains control characters"⟩

/-- What `validate_https_url` accepts after the text check. -/
def normalized_https_url (value : Str) : Bool :=
  https.isPrefixOf value &&
    value.all fun c => !(decide (c = '?') || decide (c = '#') || decide (c = '\\') ||
      is_ascii_whitespace c)

/-- What `validate_relative_path` accepts after the text check. -/
def normalized_relative_path (value : Str) : Bool :=
  !(decide (value.head? = some '/') || value.contains '\\' ||
    decide ((as_bytes value)[1]? = some 58)) && (split '/' value).all direct_segment

/-- `LakeDependencySourceV1`. -/
inductive LakeDependencySourceV1 where
  | Git (url : Str) (revision subdir : Option Str)
  | Path (directory : Str)
  | Reservoir
deriving DecidableEq

/-- What `LakeRootDependencyV1::new` accepts as a source. -/
def valid_dependency_source : LakeDependencySourceV1 → Bool
  | .Git url revision subdir =>
    valid_atom url MAX_TEXT_BYTES false && normalized_https_url url &&
      revision.all (fun value => valid_atom value MAX_TEXT_BYTES false) &&
      subdir.all (fun value => valid_atom value MAX_TEXT_BYTES false && normalized_relative_path value)
  | .Path directory => valid_atom directory MAX_TEXT_BYTES false && normalized_relative_path directory
  | .Reservoir => true

/-- `LakeRootDependencyV1`. -/
structure LakeRootDependencyV1 where
  key : PackageKeyV1
  version : Option Str
  source : LakeDependencySourceV1
  version_valid : ∀ v ∈ version, valid_atom v MAX_TEXT_BYTES false = true
  source_valid : valid_dependency_source source = true
deriving DecidableEq

/-- `LakeRootDeclarationV1` without its identity, which is a function of it. -/
structure LakeRootDeclarationV1 where
  root_name : Str
  config_file : Str
  dependencies : List LakeRootDependencyV1
  name_valid : valid_atom root_name MAX_SHORT_BYTES false = true
  config_valid : config_file = "lakefile.toml".toList ∨ config_file = "lakefile.lean".toList
  count_bounded : dependencies.length ≤ MAX_ROOT_DEPENDENCIES_V1
  dependencies_sorted : StrictlySorted LakeRootDependencyV1.key dependencies
deriving DecidableEq

/-- `LakeRootDeclarationV1::new`. -/
def LakeRootDeclarationV1.new (root_name config_file : Str)
    (dependencies : List LakeRootDependencyV1) : BridgeResult LakeRootDeclarationV1 := do
  let ⟨hname⟩ ← validate_text root_name MAX_SHORT_BYTES false "root package name"
  let ⟨hconfig⟩ ← ensure
    (config_file = "lakefile.toml".toList ∨ config_file = "lakefile.lean".toList)
    ⟨.InvalidField, "root config file must be lakefile.toml or lakefile.lean"⟩
  let ⟨hcount⟩ ← ensure (dependencies.length ≤ MAX_ROOT_DEPENDENCIES_V1)
    ⟨.LimitExceeded, "root dependency count exceeds limit"⟩
  let sorted := sort_by_key LakeRootDependencyV1.key dependencies
  let ⟨hduplicate⟩ ← ensure (adjacent_equal LakeRootDependencyV1.key sorted = false)
    ⟨.DuplicateDependency, "root declaration contains a duplicate package key"⟩
  return {
    root_name, config_file
    dependencies := sorted
    name_valid := hname
    config_valid := hconfig
    count_bounded := by simpa [sorted] using hcount
    dependencies_sorted := strictly_sorted_of_adjacent _ (sort_by_key_sorted _ _) hduplicate }

/-- What `declaration_identity` feeds for one source. -/
def dependency_source_bytes : LakeDependencySourceV1 → List UInt8
  | .Git url revision subdir =>
    0 :: (string_bytes url ++ (optional_string_bytes revision ++ optional_string_bytes subdir))
  | .Path directory => 1 :: string_bytes directory
  | .Reservoir => [2]

/-- What `declaration_identity` feeds to the hasher. -/
def declaration_bytes (declaration : LakeRootDeclarationV1) : List UInt8 :=
  as_bytes "leanbun-lake-root-declaration-v1\x00".toList ++ (string_bytes declaration.root_name ++
    (string_bytes declaration.config_file ++ declaration.dependencies.flatMap fun dependency =>
      string_bytes dependency.key.scope ++ (string_bytes dependency.key.name ++
        (optional_string_bytes dependency.version ++ dependency_source_bytes dependency.source))))

/-- `LakeRootDeclarationV1::identity`. -/
def LakeRootDeclarationV1.identity (declaration : LakeRootDeclarationV1) : Sha256 :=
  digest (declaration_bytes declaration)

end LeanBun.Bridge
