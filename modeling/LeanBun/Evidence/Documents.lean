/-
The manifest of a project, the registry of a provider and an override document.

Each of the three is decoded from strict JSON: an object with known fields, a schema of
major version 1 and a list of packages with distinct names. The decoders differ in the
fields of a package and in the code of their errors; the loop over the packages is one.
What a decoder returns has distinct, non-empty names and well formed revisions.
-/
import LeanBun.Codec.Json
import LeanBun.Plan.Inventory

set_option autoImplicit false

namespace LeanBun.Evidence

open LeanBun.Lib LeanBun.Core LeanBun.Codec LeanBun.Plan

def MAX_PROVIDER_PACKAGES : ℕ := 4096
def MAX_SHORT_STRING_BYTES : ℕ := 256
def MAX_PATH_BYTES : ℕ := 4096
def MAX_URL_BYTES : ℕ := 4096

/-! ## Errors -/

/-- `DiagnosticCode`, as far as evidence reports it. -/
inductive DiagnosticCode where
  | JSON_MALFORMED
  | MANIFEST_SHAPE_INVALID
  | MANIFEST_SCHEMA_UNSUPPORTED
  | MANIFEST_PROVIDER_MISMATCH
  | PROVIDER_SCHEMA_INVALID
  | OVERRIDE_DRIFTED
  | OVERRIDE_MISSING
  | TOOLCHAIN_INVALID
  | EVIDENCE_MISSING
  | EVIDENCE_READ_FAILED
  | EVIDENCE_CHANGED_DURING_READ
  | EVIDENCE_NOT_REGULAR_FILE
  | EVIDENCE_TOO_LARGE
  | PATH_ESCAPES_ALLOWED_ROOT
  | PROJECT_NOT_DIRECTORY
  | PROJECT_INPUT_DRIFTED
deriving DecidableEq

structure EvidenceError where
  code : DiagnosticCode
  message : Str
deriving DecidableEq

abbrev EvidenceResult (α : Type) := Except EvidenceError α

/-- `From<StrictJsonError>`. -/
def of_json_result {α : Type} (result : Except StrictJsonError α) : EvidenceResult α :=
  result.mapError fun error => ⟨.JSON_MALFORMED, error.message⟩

/-! ## Fields

The readers take the code of the errors of their document. -/

/-- The entries of a JSON object. -/
abbrev Entries := List (Str × StrictJson)

/-- `BTreeMap::get`. -/
def get (value : Entries) (field : String) : Option StrictJson :=
  (value.find? fun entry => decide (entry.1 = field.toList)).map Prod.snd

/-- `shape`, with the parts of its text. -/
def shape (code : DiagnosticCode) (parts : List Str) : EvidenceError := ⟨code, parts.flatten⟩

section Fields

variable (code : DiagnosticCode)

/-- `object`. -/
def object (value : StrictJson) (label : Str) : EvidenceResult Entries :=
  match value with
  | .Object entries => .ok entries
  | _ => .error (shape code [label, " must be an object".toList])

/-- `reject_unknown_fields`. -/
def reject_unknown_fields (value : Entries) (allowed : List String) (label : Str) :
    EvidenceResult Unit :=
  match value.find? fun entry => !allowed.any fun field => decide (field.toList = entry.1) with
  | some entry => .error (shape code [label, " has unknown field: ".toList, entry.1])
  | none => .ok ()

/-- `required_string`. -/
def required_string (value : Entries) (field : String) (maximum_bytes : ℕ) (label : Str) :
    EvidenceResult Str :=
  match get value field with
  | some (.String text) =>
    if byte_len text ≤ maximum_bytes then .ok text
    else .error (shape code [label, " ".toList, field.toList, " exceeds ".toList,
      decimal maximum_bytes, " bytes".toList])
  | some _ => .error (shape code [label, " ".toList, field.toList, " must be a string".toList])
  | none => .error (shape code [label, " is missing ".toList, field.toList])

/-- `required_nonempty_string`. -/
def required_nonempty_string (value : Entries) (field : String) (maximum_bytes : ℕ) (label : Str) :
    EvidenceResult Str := do
  let text ← required_string code value field maximum_bytes label
  if text = [] then
    .error (shape code [label, " ".toList, field.toList, " must not be empty".toList])
  else .ok text

/-- `optional_string`. -/
def optional_string (value : Entries) (field : String) (maximum_bytes : ℕ) (label : Str) :
    EvidenceResult Unit :=
  if contains_key value field.toList then do
    let _ ← required_string code value field maximum_bytes label
    return ()
  else .ok ()

/-- `optional_nullable_string`. -/
def optional_nullable_string (value : Entries) (field : String) (maximum_bytes : ℕ) (label : Str) :
    EvidenceResult Unit :=
  match get value field with
  | none => .ok ()
  | some .Null => .ok ()
  | some (.String text) =>
    if byte_len text ≤ maximum_bytes then .ok ()
    else .error (shape code [label, " ".toList, field.toList, " exceeds ".toList,
      decimal maximum_bytes, " bytes".toList])
  | some _ =>
    .error (shape code [label, " ".toList, field.toList, " must be null or a string".toList])

/-- `optional_boolean`. -/
def optional_boolean (value : Entries) (field : String) (label : Str) : EvidenceResult Unit :=
  match get value field with
  | none => .ok ()
  | some (.Bool _) => .ok ()
  | some _ => .error (shape code [label, " ".toList, field.toList, " must be a boolean".toList])

/-- `supported_lake_version`: three numbers, the first of which is 1. -/
def supported_lake_version (value : Str) : Bool :=
  match split '.' value with
  | [major, minor, patch] =>
    [major, minor, patch].all (fun part => decide (part ≠ []) && part.all is_digit) &&
      decide (decimal_value major = 1)
  | _ => false

/-- The version of a document. -/
def schema_version (root : Entries) (document : Str) : EvidenceResult Str := do
  let version ← required_string code root "version" MAX_SHORT_STRING_BYTES document
  if supported_lake_version version = false then
    .error ⟨.MANIFEST_SCHEMA_UNSUPPORTED, document ++ " schema ".toList ++ version ++
      " is not supported; supported major=1".toList⟩
  else .ok version

/-- The bounded list of packages of a document. -/
def package_values (root : Entries) (document : Str) : EvidenceResult (List StrictJson) :=
  match get root "packages" with
  | some (.Array values) =>
    if MAX_PROVIDER_PACKAGES < values.length then
      .error (shape code [document, " package count ".toList, decimal values.length,
        " exceeds limit ".toList, decimal MAX_PROVIDER_PACKAGES])
    else .ok values
  | some _ => .error (shape code [document, " packages must be an array".toList])
  | none => .error (shape code [document, " is missing packages".toList])

/-- **The loop over the packages** of a document, with the names that have been seen. -/
def decode_packages {α : Type} (document duplicate : Str) (fields : List String)
    (decode_package : Str → Str → Entries → EvidenceResult α) :
    ℕ → List Str → List StrictJson → EvidenceResult (List α)
  | _, _, [] => .ok []
  | index, names, value :: values => do
    let label := document ++ " package ".toList ++ decimal index
    let package ← object code value label
    reject_unknown_fields code package fields label
    let name ← required_nonempty_string code package "name" MAX_SHORT_STRING_BYTES label
    let _ ← ensure (name ∉ names) (shape code [duplicate, name])
    let decoded ← decode_package label name package
    let rest ← decode_packages document duplicate fields decode_package (index + 1)
      (name :: names) values
    return decoded :: rest

end Fields

/-! ## The files

What the system says is a parameter: the files at one moment. A reader that looks twice is
given two of them. -/

/-- The files at one moment, by the paths that are asked for. An error of the system is its
text. -/
structure FileSystem where
  /-- `fs::symlink_metadata`: whether there is anything. -/
  present : List UInt8 → Except Str Bool
  /-- `fs::canonicalize`. -/
  canonicalize : List UInt8 → Except Str CanonicalPath
  /-- `fs::metadata` and `is_dir`. -/
  is_dir : CanonicalPath → Except Str Bool
  /-- The bytes of a regular file that was the same before and after it was read. -/
  contents : List UInt8 → EvidenceResult (List UInt8)

/-- `Path::join`: an absolute candidate stands for itself. -/
def join_path (root : CanonicalDirectory) (candidate : Str) : List UInt8 :=
  if candidate.head? = some '/' then as_bytes candidate
  else root.bytes ++ (if root.bytes.getLast? = some 0x2f then [] else [0x2f]) ++ as_bytes candidate

/-- `lexical_normalize`, as the components below the root. -/
def lexical_normalize (path : List UInt8) : List (List UInt8) :=
  ((path.splitOn 0x2f).filter fun part => decide (part ≠ []) && decide (part ≠ [0x2e])).foldl
    (fun output part => if part = [0x2e, 0x2e] then output.dropLast else output ++ [part]) []

/-- `canonicalize_contained`. -/
def canonicalize_contained (files : FileSystem) (root : CanonicalDirectory) (candidate : Str) :
    EvidenceResult CanonicalPath := do
  let requested := join_path root candidate
  let _ ← ensure (root.components.isPrefixOf (lexical_normalize requested) = true)
    ⟨.PATH_ESCAPES_ALLOWED_ROOT, "path escapes allowed root before resolution: ".toList ++
      from_utf8_lossy requested⟩
  let canonical ← (files.canonicalize requested).mapError fun error =>
    ⟨.EVIDENCE_MISSING, "path cannot be resolved: ".toList ++ from_utf8_lossy requested ++
      ": ".toList ++ error⟩
  let _ ← ensure (canonical.starts_with root = true)
    ⟨.PATH_ESCAPES_ALLOWED_ROOT, "resolved path escapes allowed root: ".toList ++
      from_utf8_lossy requested ++ " -> ".toList ++ canonical.to_string_lossy⟩
  return canonical

/-- A directory inside the root, with the texts of the errors. -/
def contained_directory (uninspected foreign : String) (files : FileSystem)
    (root : CanonicalDirectory) (candidate : Str) : EvidenceResult CanonicalPath := do
  let canonical ← canonicalize_contained files root candidate
  let directory ← (files.is_dir canonical).mapError fun error =>
    ⟨.EVIDENCE_READ_FAILED, uninspected.toList ++ error⟩
  let _ ← ensure (directory = true)
    ⟨.PROJECT_NOT_DIRECTORY, foreign.toList ++ canonical.to_string_lossy⟩
  return canonical

/-- `canonicalize_contained_directory`. -/
def canonicalize_contained_directory : FileSystem → CanonicalDirectory → Str →
    EvidenceResult CanonicalDirectory :=
  contained_directory "contained directory cannot be inspected: "
    "contained path is not a directory: "

/-- `StableTextFile`, as far as it is read again. -/
structure StableTextFile where
  text : Str
deriving DecidableEq

/-- The digest that was taken while the text was read. -/
def StableTextFile.sha256 (file : StableTextFile) : Sha256 := digest (as_bytes file.text)

/-- `read_stable_text`. -/
def read_stable_text (files : FileSystem) (root : CanonicalDirectory) (candidate : Str)
    (maximum_bytes : ℕ) : EvidenceResult StableTextFile := do
  let bytes ← files.contents (join_path root candidate)
  let _ ← ensure (bytes.length ≤ maximum_bytes)
    ⟨.EVIDENCE_TOO_LARGE, "evidence exceeds ".toList ++ decimal maximum_bytes ++
      " bytes: ".toList ++ from_utf8_lossy (join_path root candidate)⟩
  match from_utf8 bytes with
  | some text => .ok ⟨text⟩
  | none => .error ⟨.EVIDENCE_READ_FAILED, "evidence is not valid UTF-8".toList⟩

/-- A text that was read is within the limit. -/
theorem read_stable_text_eq_ok {files : FileSystem} {root : CanonicalDirectory} {candidate : Str}
    {maximum_bytes : ℕ} {file : StableTextFile}
    (h : read_stable_text files root candidate maximum_bytes = .ok file) :
    byte_len file.text ≤ maximum_bytes := by
  obtain ⟨bytes, -, h⟩ := bind_eq_ok.mp h
  obtain ⟨hlimit, -, h⟩ := bind_eq_ok.mp h
  split at h
  · rename_i text htext
    cases h
    have hlimit := hlimit.down
    rw [from_utf8_eq_some.mp htext] at hlimit
    exact hlimit
  · cases h

/-! ## What the loop returns -/

theorem required_nonempty_string_eq_ok {code : DiagnosticCode} {value : Entries} {field : String}
    {maximum_bytes : ℕ} {label text : Str}
    (h : required_nonempty_string code value field maximum_bytes label = .ok text) :
    text ≠ [] ∧ byte_len text ≤ maximum_bytes := by
  obtain ⟨found, hfound, h⟩ := bind_eq_ok.mp h
  by_cases hempty : found = []
  · rw [if_pos hempty] at h
    cases h
  · rw [if_neg hempty] at h
    cases h
    refine ⟨hempty, ?_⟩
    unfold required_string at hfound
    split at hfound
    · split at hfound
      · rename_i hlen
        rw [← Except.ok.inj hfound]
        exact hlen
      · cases hfound
    · cases hfound
    · cases hfound

/-- **Distinct names.** The packages of a document have names that are distinct, not empty and
bounded, and whatever the decoder of one package says. -/
theorem decode_packages_eq_ok {α : Type} {code : DiagnosticCode} {document duplicate : Str}
    {fields : List String} {decode_package : Str → Str → Entries → EvidenceResult α}
    {key : α → Str} {P : α → Prop}
    (hone : ∀ label name package a, decode_package label name package = .ok a → key a = name ∧ P a)
    {index : ℕ} {names : List Str} {values : List StrictJson} {packages : List α}
    (h : decode_packages code document duplicate fields decode_package index names values =
      .ok packages) :
    (packages.map key).Nodup ∧ packages.length = values.length ∧
      ∀ package ∈ packages, key package ∉ names ∧ key package ≠ [] ∧
        byte_len (key package) ≤ MAX_SHORT_STRING_BYTES ∧ P package := by
  induction values generalizing index names packages with
  | nil =>
    cases h
    exact ⟨List.nodup_nil, rfl, fun _ h => absurd h List.not_mem_nil⟩
  | cons value values ih =>
    obtain ⟨package, -, h⟩ := bind_eq_ok.mp h
    obtain ⟨_, -, h⟩ := bind_eq_ok.mp h
    obtain ⟨name, hname, h⟩ := bind_eq_ok.mp h
    obtain ⟨hfresh, -, h⟩ := bind_eq_ok.mp h
    obtain ⟨decoded, hdecoded, h⟩ := bind_eq_ok.mp h
    obtain ⟨rest, hrest, h⟩ := bind_eq_ok.mp h
    cases h
    obtain ⟨hnodup, hlength, hall⟩ := ih hrest
    obtain ⟨hkey, hP⟩ := hone _ _ _ _ hdecoded
    obtain ⟨hempty, hshort⟩ := required_nonempty_string_eq_ok hname
    refine ⟨?_, by rw [List.length_cons, List.length_cons, hlength], ?_⟩
    · rw [List.map_cons, List.nodup_cons]
      refine ⟨fun hmem => ?_, hnodup⟩
      obtain ⟨other, hother, heq⟩ := List.mem_map.mp hmem
      exact (hall other hother).1 (by rw [heq, hkey]; exact List.mem_cons_self)
    · intro other hother
      rcases List.mem_cons.mp hother with rfl | hother
      · rw [hkey]
        exact ⟨hfresh.down, hempty, hshort, hP⟩
      · obtain ⟨hnot, hrest⟩ := hall other hother
        exact ⟨fun hmem => hnot (List.mem_cons_of_mem _ hmem), hrest⟩

end LeanBun.Evidence
