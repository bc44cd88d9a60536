/-
The closure of registered Git packages.

The managed root takes its packages from the manifest of the project and the pair of the
provider. The tree of a package is archived by Git at the revision, or at the directory under
it that the manifest names; the configuration, the manifest and the edges of the package are
read from the checkout. The two agree exactly when the checkout has these files as Git does.
-/
import LeanBun.Evidence.ProviderPair
import LeanBun.Lock.Decision
import LeanBun.Resolver.Model
import LeanBun.Store.Archive

set_option autoImplicit false

namespace LeanBun.Managed.Registered

open LeanBun.Lib LeanBun.Core LeanBun.Codec LeanBun.Plan LeanBun.Evidence LeanBun.Lock LeanBun.Store
open LeanBun.Resolver (LeanSourceRequestV1)

abbrev RegisteredResult (α : Type) := Except Str α

/-! ## The fields of a manifest -/

/-- `object`. -/
def object (value : StrictJson) (label : String) : RegisteredResult Entries :=
  match value with
  | .Object entries => .ok entries
  | _ => .error (label ++ " is not an object").toList

/-- `array`. -/
def array (value : Option StrictJson) (label : String) : RegisteredResult (List StrictJson) :=
  match value with
  | some (.Array values) => .ok values
  | _ => .error (label ++ " is not an array").toList

/-- `string_allow_empty`. -/
def string_allow_empty (value : Entries) (field : String) : RegisteredResult Str :=
  match get value field with
  | some (.String text) =>
    if byte_len text ≤ 4096 then .ok text
    else .error ("managed Git field is invalid: " ++ field).toList
  | _ => .error ("managed Git field is invalid: " ++ field).toList

/-- `string`. -/
def string (value : Entries) (field : String) : RegisteredResult Str := do
  let text ← string_allow_empty value field
  let _ ← ensure (text ≠ []) ("managed Git field is invalid: " ++ field).toList
  return text

/-- `nullable_string`. -/
def nullable_string (value : Entries) (field : String) : RegisteredResult (Option Str) :=
  match get value field with
  | none => .ok none
  | some .Null => .ok none
  | some (.String text) =>
    if text ≠ [] ∧ byte_len text ≤ 4096 then .ok (some text)
    else .error ("managed Git nullable field is invalid: " ++ field).toList
  | some _ => .error ("managed Git nullable field is invalid: " ++ field).toList

/-- `boolean`. -/
def boolean (value : Entries) (field : String) : RegisteredResult Bool :=
  match get value field with
  | some (.Bool value) => .ok value
  | _ => .error ("managed Git boolean field is invalid: " ++ field).toList

/-! ## The checkouts -/

/-- What is read of the checkouts, and what Git archives. An error is its text. -/
structure Checkouts where
  /-- `fs::symlink_metadata`: the size of a regular file. -/
  metadata : List UInt8 → RegisteredResult (Option ℕ)
  /-- `fs::read`. -/
  read : List UInt8 → RegisteredResult (List UInt8)
  /-- `git archive --format=tar` in a repository. -/
  archive : CanonicalPath → Str → RegisteredResult (List UInt8)

/-- `fs::read_to_string`. -/
def read_to_string (world : Checkouts) (path : List UInt8) (label : String) :
    RegisteredResult Str := do
  let bytes ← (world.read path).mapError fun error => (label ++ ": ").toList ++ error
  match from_utf8 bytes with
  | some text => .ok text
  | none => .error (label ++ ": stream did not contain valid UTF-8").toList

def MAX_REGISTERED_FILE_BYTES : ℕ := 16 * 1024 * 1024

/-- `file_sha256`. -/
def file_sha256 (world : Checkouts) (path : List UInt8) : RegisteredResult Sha256 := do
  let metadata ← (world.metadata path).mapError fun error =>
    "cannot inspect registered package input: ".toList ++ error
  let _ ← ensure (metadata.any fun size => decide (size ≤ MAX_REGISTERED_FILE_BYTES))
    ("registered package input is not a bounded regular file: ".toList ++ from_utf8_lossy path)
  let bytes ← (world.read path).mapError fun error =>
    "cannot read registered package input: ".toList ++ error
  return digest bytes

/-- The message of a store error. -/
def store_message {α : Type} (result : StoreResult α) : RegisteredResult α :=
  result.mapError fun error => error.message.toList

/-- The message of a lock error. -/
def lock_message {α : Type} (result : LockResult α) : RegisteredResult α :=
  result.mapError fun error => error.message.toList

/-! ## Packages -/

/-- What the manifest and the provider say of a package: the first fields of
`RegisteredGitInputV1`. -/
structure RegisteredGitPackageV1 where
  key : PackageKeyV1
  url : CanonicalSourceUrlV1
  revision : Str
  input_revision : Option Str
  subdir : Option Str
  inherited : Bool
  config_file : Str
  manifest_file : Option Str
  directory : CanonicalPath
deriving DecidableEq

/-- `RegisteredGitInputV1`. -/
structure RegisteredGitInputV1 extends RegisteredGitPackageV1 where
  download_sha256 : Sha256
  tree_sha256 : Sha256
  config_sha256 : Sha256
  manifest_sha256 : Option Sha256
  selected_source_identity : Sha256
  dependencies : List PackageKeyV1
deriving DecidableEq

/-- The name of the tree that is archived. -/
def treeish (revision : Str) : Option Str → Str
  | some subdir => revision ++ ':' :: subdir
  | none => revision

/-- The archive of a package. -/
def archived_bytes (world : Checkouts) (package : RegisteredGitPackageV1) :
    RegisteredResult (List UInt8) :=
  world.archive package.directory (treeish package.revision package.subdir)

/-- `git_archive_digests`. -/
def git_archive_digests (world : Checkouts) (package : RegisteredGitPackageV1) :
    RegisteredResult (Sha256 × Sha256) := do
  let output ← archived_bytes world package
  let tree ← store_message
    (normalized_tar_tree_sha256_v1 output LeanStoreLimitsV1.registered_provider)
  return (digest output, tree)

/-- The fields of one package, with the names that have been seen. -/
def package_fields (pair : StableProviderPair) (names : List Str) (value : StrictJson) :
    RegisteredResult (Str × RegisteredGitPackageV1) := do
  let item ← object value "managed Git package"
  let package_type ← string item "type"
  let _ ← ensure (package_type = "git".toList)
    "registered managed closure contains a non-Git package".toList
  let name ← string item "name"
  let _ ← ensure (name ∉ names)
    ("registered managed closure repeats package: ".toList ++ name)
  let scope ← string_allow_empty item "scope"
  let revision ← string item "rev"
  match by_name VerifiedProviderPackage.name pair.packages name with
  | none => .error ("managed Git package is not registered: ".toList ++ name)
  | some registered =>
    let _ ← ensure (revision = registered.revision)
      ("managed Git revision differs from provider: ".toList ++ name)
    let key ← lock_message (PackageKeyV1.new scope name)
    let url_text ← string item "url"
    let url ← lock_message (CanonicalSourceUrlV1.parse url_text)
    let subdir ← nullable_string item "subDir"
    let input_revision ← nullable_string item "inputRev"
    let config_file ← string item "configFile"
    let manifest_file ← nullable_string item "manifestFile"
    let inherited ← boolean item "inherited"
    return (name, {
      key := key
      url := url
      revision := revision
      input_revision := input_revision
      subdir := subdir
      inherited := inherited
      config_file := config_file
      manifest_file := manifest_file
      directory := registered.directory })

/-- A digest that may be absent. -/
def optional_file_sha256 (world : Checkouts) (directory : CanonicalPath) :
    Option Str → RegisteredResult (Option Sha256)
  | some name => (file_sha256 world (join_path directory name)).map some
  | none => .ok none

/-- The bytes of a source identity. -/
def source_identity_bytes (package : RegisteredGitPackageV1) (tree_sha256 : Sha256) :
    List UInt8 :=
  as_bytes "leanbun-registered-git-source-v1\x00".toList ++ string_bytes package.url.value ++
    string_bytes package.revision ++ tree_sha256.bytes

/-- The digests of one package, without its dependencies. -/
def package_digests (world : Checkouts) (package : RegisteredGitPackageV1) :
    RegisteredResult RegisteredGitInputV1 := do
  let digests ← git_archive_digests world package
  let config_sha256 ← file_sha256 world (join_path package.directory package.config_file)
  let manifest_sha256 ← optional_file_sha256 world package.directory package.manifest_file
  return {
    toRegisteredGitPackageV1 := package
    download_sha256 := digests.1
    tree_sha256 := digests.2
    config_sha256 := config_sha256
    manifest_sha256 := manifest_sha256
    selected_source_identity := digest (source_identity_bytes package digests.2)
    dependencies := [] }

/-- The loop over the packages, with the names that have been seen. -/
def load_packages (world : Checkouts) (pair : StableProviderPair) :
    List Str → List StrictJson → RegisteredResult (List Str × List RegisteredGitInputV1)
  | names, [] => .ok (names, [])
  | names, value :: values => do
    let fields ← package_fields pair names value
    let input ← package_digests world fields.2
    let rest ← load_packages world pair (fields.1 :: names) values
    return (rest.1, input :: rest.2)

/-- The loop over the dependencies that a manifest names, with those that have been seen. -/
def dependency_keys (package_keys : Str → Option PackageKeyV1) :
    List PackageKeyV1 → List StrictJson → RegisteredResult (List PackageKeyV1)
  | keys, [] => .ok (sort_by_key id keys)
  | keys, value :: values => do
    let item ← object value "registered package dependency"
    let name ← string item "name"
    match package_keys name with
    | none => .error ("registered package dependency is outside provider: ".toList ++ name)
    | some key =>
      let _ ← ensure (key ∉ keys)
        ("registered package manifest repeats dependency: ".toList ++ name)
      dependency_keys package_keys (key :: keys) values

/-- The dependencies that the text of a manifest names. -/
def manifest_dependencies (package_keys : Str → Option PackageKeyV1) (text : Str) :
    RegisteredResult (List PackageKeyV1) := do
  let json ← (parse_strict_json text).mapError fun error => error.message
  let root ← object json "registered package manifest"
  let packages ← array (get root "packages") "registered package dependencies"
  dependency_keys package_keys [] packages

/-- `registered_manifest_dependencies`. -/
def registered_manifest_dependencies (world : Checkouts)
    (package_keys : Str → Option PackageKeyV1) (manifest : List UInt8) :
    RegisteredResult (List PackageKeyV1) := do
  let text ← read_to_string world manifest "cannot read registered package manifest"
  manifest_dependencies package_keys text

/-- The keys of the closure by name. -/
def package_keys (inputs : List RegisteredGitInputV1) (name : Str) : Option PackageKeyV1 :=
  (by_name (fun input : RegisteredGitInputV1 => input.key.name) inputs name).map fun input =>
    input.key

/-- An input with its dependencies. -/
def with_dependencies (world : Checkouts) (keys : Str → Option PackageKeyV1)
    (input : RegisteredGitInputV1) : RegisteredResult RegisteredGitInputV1 :=
  match input.manifest_file with
  | none => .ok input
  | some manifest_file => do
    let dependencies ←
      registered_manifest_dependencies world keys (join_path input.directory manifest_file)
    return { input with dependencies := dependencies }

/-- The provider and the packages of the manifest. -/
def managed_packages (files : ProviderMoment → FileSystem) (development_root : CanonicalDirectory)
    (world : Checkouts) (project_manifest : List UInt8) :
    RegisteredResult (StableProviderPair × List StrictJson) := do
  let pair ← (read_provider_pair files development_root "lean/registry/manifest.json".toList
    "lean/overrides/package-overrides.json".toList
    "lean/package-set/packages".toList).mapError fun error => error.message
  let text ← read_to_string world project_manifest "cannot read managed Git manifest"
  let json ← (parse_strict_json text).mapError fun error => error.message
  let root ← object json "managed Git manifest"
  let packages ← array (get root "packages") "managed Git packages"
  let _ ← ensure (packages ≠ [] ∧ packages.length ≤ 4096)
    "managed Git closure package count is invalid".toList
  return (pair, packages)

/-- `load_registered_git_closure`. -/
def load_registered_git_closure (files : ProviderMoment → FileSystem)
    (development_root : CanonicalDirectory) (world : Checkouts) (project_manifest : List UInt8) :
    RegisteredResult (List RegisteredGitInputV1) := do
  let managed ← managed_packages files development_root world project_manifest
  let loaded ← load_packages world managed.1 [] managed.2
  let _ ← ensure (name_set loaded.1 =
      name_set (managed.1.packages.map VerifiedProviderPackage.name))
    "managed Git manifest does not equal the registered provider closure".toList
  loaded.2.mapM (with_dependencies world (package_keys loaded.2))

/-- The locked package of `registered_git_package`. -/
def registered_git_package (input : RegisteredGitInputV1) (dependencies : List PackageKeyV1) :
    RegisteredResult LockedLeanPackageV1 := do
  let provenance ← lock_message (PackagePathProvenanceSetV1.new
    [PackagePathProvenanceV1.workspace_override input.key input.selected_source_identity])
  let requested ← lock_message (RequestedPackageSourceV1.git input.url input.input_revision)
  let resolved ← lock_message (ResolvedPackageSourceV1.git input.url input.revision input.subdir)
  lock_message (LockedLeanPackageV1.new input.key requested resolved (some input.download_sha256)
    input.tree_sha256 input.config_sha256 input.manifest_sha256 dependencies [provenance.digest]
    input.selected_source_identity)

end LeanBun.Managed.Registered
