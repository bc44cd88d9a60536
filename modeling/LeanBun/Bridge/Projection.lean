/-
The projections of a lock that Lake reads.

The manifest projection writes every locked package with its own source; the
runtime projection writes it as a path package at the directory of its path
decision. Both are JSON texts over one list of entries. The entries are kept
here and the text is a function of them, so that the directories of a projection
can be named without reading its text.
-/
import LeanBun.Bridge.Declaration
import LeanBun.Lock.Decision

set_option autoImplicit false

namespace LeanBun.Bridge

open LeanBun.Lib LeanBun.Core LeanBun.Lock

/-! ## Metadata -/

/-- A normalized relative path of bounded length. -/
def valid_relative_path (value : Str) : Bool :=
  valid_atom value MAX_TEXT_BYTES false && normalized_relative_path value

/-- `validate_relative_path`. -/
def validate_relative_path (value : Str) (label : String) :
    BridgeResult (PLift (valid_relative_path value = true)) := do
  let ⟨htext⟩ ← validate_text value MAX_TEXT_BYTES false label
  let ⟨hpath⟩ ← ensure (normalized_relative_path value = true)
    ⟨.InvalidField, label ++ " must be a normalized relative path"⟩
  return ⟨by rw [valid_relative_path, htext, hpath]; rfl⟩

/-- A check of a value that may be absent. -/
def validate_optional {P : Str → Bool} (check : (v : Str) → BridgeResult (PLift (P v = true))) :
    (value : Option Str) → BridgeResult (PLift (∀ v ∈ value, P v = true))
  | none => .ok ⟨none_passes⟩
  | some v => do
    let ⟨hv⟩ ← check v
    return ⟨some_passes hv⟩

/-- `LakePackageProjectionMetadataV1`. -/
structure LakePackageProjectionMetadataV1 where
  key : PackageKeyV1
  inherited : Bool
  config_file : Str
  manifest_file : Option Str
  input_revision : Option Str
  config_valid : valid_relative_path config_file = true
  manifest_valid : ∀ v ∈ manifest_file, valid_relative_path v = true
  revision_valid : ∀ v ∈ input_revision, valid_atom v MAX_TEXT_BYTES false = true

/-- `LakePackageProjectionMetadataV1::new`. -/
def LakePackageProjectionMetadataV1.new (key : PackageKeyV1) (inherited : Bool) (config_file : Str)
    (manifest_file input_revision : Option Str) : BridgeResult LakePackageProjectionMetadataV1 := do
  let ⟨hconfig⟩ ← validate_relative_path config_file "package config file"
  let ⟨hmanifest⟩ ← validate_optional
    (fun value => validate_relative_path value "package manifest file") manifest_file
  let ⟨hrevision⟩ ← validate_optional
    (fun value => validate_text value MAX_TEXT_BYTES false "package input revision") input_revision
  return ⟨key, inherited, config_file, manifest_file, input_revision, hconfig, hmanifest, hrevision⟩

/-- `validate_metadata`: one metadata record for every locked package. -/
def validate_metadata (lock : LeanBunLockV1) (metadata : List LakePackageProjectionMetadataV1) :
    BridgeResult (List LakePackageProjectionMetadataV1) := do
  let sorted := sort_by_key LakePackageProjectionMetadataV1.key metadata
  let _ ← ensure (adjacent_equal LakePackageProjectionMetadataV1.key sorted = false)
    ⟨.DuplicatePackage, "duplicate projection package metadata"⟩
  let locked := lock.packages.map LockedLeanPackageV1.key
  let supplied := sorted.map LakePackageProjectionMetadataV1.key
  match first_difference locked supplied with
  | some key => .error ⟨.MissingPackage, "missing projection metadata for " ++ key_text key⟩
  | none =>
    match first_difference supplied locked with
    | some key => .error ⟨.ExtraPackage, "extra projection metadata for " ++ key_text key⟩
    | none => .ok sorted

/-! ## Entries -/

/-- The source of an entry. -/
inductive ProjectionSource where
  | Git (url rev : Str) (input_rev subdir : Option Str)
  | Path (dir : Str)
deriving DecidableEq

/-- One entry of a projection. -/
structure ProjectionEntry where
  name : Str
  scope : Str
  inherited : Bool
  config_file : Str
  manifest_file : Option Str
  source : ProjectionSource
deriving DecidableEq

/-- The directory of a path entry. -/
def ProjectionEntry.dir (entry : ProjectionEntry) : Option Str :=
  match entry.source with
  | .Git _ _ _ _ => none
  | .Path dir => some dir

/-- The source that `encode_entries` writes for a package: the directory of its
decision at run time, its own source otherwise. -/
def projection_source (package : LockedLeanPackageV1) (meta_ : LakePackageProjectionMetadataV1)
    (decisions : Option PackagePathDecisionSetV1) (runtime : Bool) : BridgeResult ProjectionSource :=
  if runtime then
    match decisions with
    | none => .error ⟨.NonBunRuntimeOverride, "runtime entry lacks Bun decision set"⟩
    | some set =>
      match set.decisions.find? fun decision => decide (decision.package = package.key) with
      | none => .error ⟨.MissingPackage, "runtime decision missing"⟩
      | some decision => .ok (.Path decision.final_path)
  else
    match package.resolved with
    | .Git url exact_revision subdir _ _ =>
      .ok (.Git url.value exact_revision meta_.input_revision subdir)
    | .PathSnapshot portable_path_token _ => .ok (.Path portable_path_token)

/-- One round of `encode_entries`. -/
def projection_entry (metadata : List LakePackageProjectionMetadataV1)
    (decisions : Option PackagePathDecisionSetV1) (runtime : Bool) (package : LockedLeanPackageV1) :
    BridgeResult ProjectionEntry :=
  match metadata.find? fun item => decide (item.key = package.key) with
  | none => .error ⟨.MissingPackage, "projection metadata missing after validation"⟩
  | some meta_ => do
    let source ← projection_source package meta_ decisions runtime
    return ⟨package.key.name, package.key.scope, meta_.inherited, meta_.config_file,
      meta_.manifest_file, source⟩

/-! ## The JSON text -/

/-- A character of a JSON string. -/
def json_char (c : Char) : Str :=
  if c = '"' then "\\\"".toList
  else if c = '\\' then "\\\\".toList
  else if c = '\x08' then "\\b".toList
  else if c = '\x0c' then "\\f".toList
  else if c = '\n' then "\\n".toList
  else if c = '\r' then "\\r".toList
  else if c = '\t' then "\\t".toList
  else if c.toNat < 0x20 then "\\u00".toList ++ hex [UInt8.ofNat c.toNat]
  else [c]

/-- `json_string`. -/
def json_string (value : Str) : Str := '"' :: (value.flatMap json_char ++ ['"'])

/-- `optional_json_string`. -/
def optional_json_string : Option Str → Str
  | some value => json_string value
  | none => "null".toList

/-- `field_string`. -/
def field_string (name : String) (value : Str) : Str :=
  json_string name.toList ++ ':' :: json_string value

/-- The source fields of an entry. -/
def source_text : ProjectionSource → Str
  | .Git url rev input_rev subdir =>
    ",\"type\":\"git\",".toList ++ field_string "url" url ++ ',' :: field_string "rev" rev ++
      ",\"inputRev\":".toList ++ optional_json_string input_rev ++ ",\"subDir\":".toList ++
      optional_json_string subdir
  | .Path dir => ",\"type\":\"path\",".toList ++ field_string "dir" dir

/-- One entry as `encode_entries` writes it. -/
def entry_text (entry : ProjectionEntry) : Str :=
  '\x7b' :: field_string "name" entry.name ++ ',' :: field_string "scope" entry.scope ++
    ",\"inherited\":".toList ++ (if entry.inherited then "true".toList else "false".toList) ++
    ',' :: field_string "configFile" entry.config_file ++ ",\"manifestFile\":".toList ++
    optional_json_string entry.manifest_file ++ source_text entry.source ++ ['\x7d']

/-- `encode_entries`: the entries with commas between them. -/
def entries_text (entries : List ProjectionEntry) : Str :=
  List.intercalate [','] (entries.map entry_text)

/-! ## The manifest projection -/

/-- The check of one root dependency in `validate_root_dependencies`. -/
def check_root_dependency (lock : LeanBunLockV1) (dependency : LakeRootDependencyV1) :
    BridgeResult Unit :=
  match lock.packages.find? fun package => decide (package.key = dependency.key) with
  | none => .error ⟨.MissingPackage, "root dependency absent from lock: " ++ key_text dependency.key⟩
  | some package =>
    match dependency.source, package.requested, package.resolved with
    | .Git url revision subdir, .Git requested _ _, .Git resolved exact_revision locked_subdir _ _ =>
      if url ≠ requested.value ∨ url ≠ resolved.value ∨
          revision.any (fun value => decide (value ≠ exact_revision)) = true ∨
          subdir ≠ locked_subdir then
        .error ⟨.SourceValueDrift, "root Git declaration differs from locked source"⟩
      else .ok ()
    | .Path directory, .PathSnapshot portable_path_token _, .PathSnapshot resolved _ =>
      if directory ≠ portable_path_token ∨ directory ≠ resolved then
        .error ⟨.SourceValueDrift, "root path declaration differs from locked source"⟩
      else .ok ()
    | .Reservoir, _, _ => .ok ()
    | _, _, _ => .error ⟨.SourceKindDrift, "root declaration and lock source kinds differ"⟩

/-- `LakeManifestProjectionV1`: its text and digest are functions of the name and
the entries. -/
structure LakeManifestProjectionV1 where
  root_name : Str
  entries : List ProjectionEntry
deriving DecidableEq

/-- `encode_manifest`. -/
def LakeManifestProjectionV1.as_str (manifest : LakeManifestProjectionV1) : Str :=
  "\x7b\"version\":\"1.2.0\",\"fixedToolchain\":true,\"name\":".toList ++
    json_string manifest.root_name ++
    ",\"lakeDir\":\".lake\",\"packagesDir\":\".lake/packages\",\"packages\":[".toList ++
    entries_text manifest.entries ++ "]\x7d\n".toList

/-- `LakeManifestProjectionV1::sha256`. -/
def LakeManifestProjectionV1.sha256 (manifest : LakeManifestProjectionV1) : Sha256 :=
  digest (as_bytes manifest.as_str)

/-- `LakeManifestProjectionV1::new`. -/
def LakeManifestProjectionV1.new (declaration : LakeRootDeclarationV1) (lock : LeanBunLockV1)
    (metadata : List LakePackageProjectionMetadataV1) : BridgeResult LakeManifestProjectionV1 := do
  let _ ← declaration.dependencies.mapM (check_root_dependency lock)
  let metadata ← validate_metadata lock metadata
  let entries ← lock.packages.mapM (projection_entry metadata none false)
  return ⟨declaration.root_name, entries⟩

/-! ## The runtime projection -/

/-- `LakeRuntimePackagesProjectionV1`: its text, digest and package count are
functions of the entries. -/
structure LakeRuntimePackagesProjectionV1 where
  entries : List ProjectionEntry
deriving DecidableEq

/-- `encode_runtime`. -/
def LakeRuntimePackagesProjectionV1.as_str (runtime : LakeRuntimePackagesProjectionV1) : Str :=
  "\x7b\"version\":\"1.2.0\",\"packages\":[".toList ++ entries_text runtime.entries ++
    "]\x7d\n".toList

/-- `LakeRuntimePackagesProjectionV1::sha256`. -/
def LakeRuntimePackagesProjectionV1.sha256 (runtime : LakeRuntimePackagesProjectionV1) : Sha256 :=
  digest (as_bytes runtime.as_str)

/-- `LakeRuntimePackagesProjectionV1::package_count`: one entry for each locked
package. -/
def LakeRuntimePackagesProjectionV1.package_count (runtime : LakeRuntimePackagesProjectionV1) : ℕ :=
  runtime.entries.length

/-- `LakeRuntimePackagesProjectionV1::from_bun_decisions`. -/
def LakeRuntimePackagesProjectionV1.from_bun_decisions (lock : LeanBunLockV1)
    (decisions : PackagePathDecisionSetV1) (metadata : List LakePackageProjectionMetadataV1) :
    BridgeResult LakeRuntimePackagesProjectionV1 := do
  let metadata ← validate_metadata lock metadata
  let _ ← ensure (decisions.decisions.length = lock.packages.length)
    ⟨.NonBunRuntimeOverride,
      "runtime projection must be a Bun decision for the complete locked closure"⟩
  let entries ← lock.packages.mapM (projection_entry metadata (some decisions) true)
  return ⟨entries⟩

end LeanBun.Bridge
