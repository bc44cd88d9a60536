/-
The reader of `lakefile.toml` at the intake of a managed project.

It goes over the text line by line. A line that is bracketed is a header, any other that is
neither blank nor a comment must have an equals sign. The name of the root is read before the
first header and the requirements under `[[require]]`; what stands under any other header is
passed over.
-/
import LeanBun.Bridge.Dependency
import LeanBun.Evidence.ProjectInput
import LeanBun.Managed.Record

set_option autoImplicit false

namespace LeanBun.Intake

open LeanBun.Lib LeanBun.Lock LeanBun.Bridge LeanBun.Managed
open LeanBun.Evidence (trim is_white_space)

/-! ## Lines -/

/-- What a trimmed line is read as. -/
inductive LakefileLine
  | Nothing
  | ArrayHeader (name : Str)
  | Header (name : Str)
  | Assignment (key raw_value : Str)
  | Unsupported
deriving DecidableEq

/-- A line without the brackets at both ends. -/
def inside (brackets : ℕ) (line : Str) : Str := (line.drop brackets).rdrop brackets

/-- The cases of the loop in `parse_supported_lakefile_toml`. -/
def line_kind (line : Str) : LakefileLine :=
  if line = [] ∨ ['#'] <+: line then .Nothing
  else if ['[', '['] <+: line ∧ [']', ']'] <:+ line then .ArrayHeader (trim (inside 2 line))
  else if ['['] <+: line ∧ [']'] <:+ line then .Header (trim (inside 1 line))
  else match split_once '=' line with
    | some (key, raw_value) => .Assignment (trim key) raw_value
    | none => .Unsupported

/-- `str::strip_suffix`. -/
def strip_suffix (tail s : Str) : Option Str :=
  if tail <:+ s then some (s.rdrop tail.length) else none

/-- `basic_string`. -/
def basic_string (value : Str) : ManagedResult Str :=
  match ( strip_prefix ['"'] (trim value)).bind (strip_suffix ['"']) with
  | none => .error (input_error "M49 lakefile.toml accepts only basic string values")
  | some value => do
    let _ ← ensure
      (value ≠ [] ∧ ∀ c ∈ value, is_control c = false ∧ c ≠ '"' ∧ c ≠ '\\')
      (input_error "lakefile.toml basic string is invalid")
    return value

/-! ## Requirements -/

/-- The fields that a requirement may have. -/
inductive RequireField
  | name | scope | path | git | rev | subdir | version
deriving DecidableEq

/-- `RequireFields`. -/
structure RequireFields where
  name : Option Str
  scope : Option Str
  path : Option Str
  git : Option Str
  rev : Option Str
  subdir : Option Str
  version : Option Str
deriving DecidableEq

/-- `RequireFields::default`. -/
def RequireFields.default : RequireFields := ⟨none, none, none, none, none, none, none⟩

/-- The key of a field. -/
def RequireField.key : RequireField → Str
  | .name => "name".toList
  | .scope => "scope".toList
  | .path => "path".toList
  | .git => "git".toList
  | .rev => "rev".toList
  | .subdir => "subDir".toList
  | .version => "version".toList

def RequireField.all : List RequireField := [.name, .scope, .path, .git, .rev, .subdir, .version]

/-- The field of a key. -/
def require_field (key : Str) : Option RequireField :=
  RequireField.all.find? fun field => decide (field.key = key)

def RequireFields.get (fields : RequireFields) : RequireField → Option Str
  | .name => fields.name
  | .scope => fields.scope
  | .path => fields.path
  | .git => fields.git
  | .rev => fields.rev
  | .subdir => fields.subdir
  | .version => fields.version

def RequireFields.set (fields : RequireFields) (value : Str) : RequireField → RequireFields
  | .name => { fields with name := some value }
  | .scope => { fields with scope := some value }
  | .path => { fields with path := some value }
  | .git => { fields with git := some value }
  | .rev => { fields with rev := some value }
  | .subdir => { fields with subdir := some value }
  | .version => { fields with version := some value }

@[simp] theorem RequireFields.get_default (field : RequireField) :
    RequireFields.default.get field = none := by cases field <;> rfl

@[simp] theorem RequireFields.get_set_self (fields : RequireFields) (value : Str)
    (field : RequireField) : (fields.set value field).get field = some value := by
  cases field <;> rfl

theorem RequireFields.get_set_of_ne (fields : RequireFields) (value : Str)
    {field other : RequireField} (h : other ≠ field) :
    (fields.set value field).get other = fields.get other := by
  cases field <;> cases other <;> first | rfl | exact absurd rfl h

theorem require_field_eq_some {key : Str} {field : RequireField} :
    require_field key = some field ↔ field.key = key := by
  constructor
  · intro h
    unfold require_field at h
    have hfound := List.find?_some h
    simpa using hfound
  · rintro rfl
    cases field <;> decide

theorem RequireField.key_injective {a b : RequireField} (h : a.key = b.key) : a = b := by
  have hb := require_field_eq_some.mpr (rfl : b.key = b.key)
  have ha := require_field_eq_some.mpr h
  exact Option.some.inj (ha.symm.trans hb)

/-- The source that the fields of a requirement select. -/
def requirement_source (fields : RequireFields) : ManagedResult LakeDependencySourceV1 :=
  match fields.path, fields.git with
  | some directory, none =>
    if fields.rev = none ∧ fields.subdir = none then .ok (.Path directory)
    else .error (input_error "require must select exactly one supported source")
  | none, some url => .ok (.Git url fields.rev fields.subdir)
  | _, _ => .error (input_error "require must select exactly one supported source")

/-- The version of a requirement. -/
def requirement_version (fields : RequireFields) : Option Str :=
  fields.version <|> fields.rev.map fun rev => "git#".toList ++ rev

/-- `finish_requirement`. -/
def finish_requirement (fields : RequireFields) : ManagedResult LakeRootDependencyV1 :=
  match fields.name with
  | none => .error (input_error "lakefile.toml require name is missing")
  | some name => do
    let key ← (PackageKeyV1.new (fields.scope.getD []) name).mapError fun error =>
      input_error error.message
    let source ← requirement_source fields
    (LakeRootDependencyV1.new key (requirement_version fields) source).mapError fun error =>
      input_error error.message

/-! ## The loop -/

/-- The variables of the loop. -/
structure LakefileReader where
  root_name : Option Str
  section_name : Str
  current : Option RequireFields
  dependencies : List LakeRootDependencyV1
deriving DecidableEq

def LakefileReader.start : LakefileReader := ⟨none, [], none, []⟩

/-- `current.take()`, and the requirement that it was. -/
def LakefileReader.finish (reader : LakefileReader) : ManagedResult LakefileReader :=
  match reader.current with
  | none => .ok reader
  | some fields => do
    let dependency ← finish_requirement fields
    return { reader with
      current := none
      dependencies := reader.dependencies ++ [dependency] }

/-- The name of the root. -/
def LakefileReader.read_name (reader : LakefileReader) (raw_value : Str) :
    ManagedResult LakefileReader := do
  let value ← basic_string raw_value
  let _ ← ensure (reader.root_name = none) (input_error "lakefile.toml repeats the root name")
  return { reader with root_name := some value }

/-- A field of a requirement. -/
def LakefileReader.read_field (reader : LakefileReader) (key raw_value : Str) :
    ManagedResult LakefileReader :=
  match reader.current with
  | none => .error (input_error "require fields lack a section")
  | some fields => do
    let value ← basic_string raw_value
    match require_field key with
    | none => .error (input_error "unsupported [[require]] field")
    | some slot =>
      let _ ← ensure (fields.get slot = none)
        (input_error "lakefile.toml repeats a require field")
      return { reader with current := some (fields.set value slot) }

/-- What one line does, by its kind. -/
def LakefileReader.read_kind (reader : LakefileReader) : LakefileLine → ManagedResult LakefileReader
  | .Nothing => .ok reader
  | .ArrayHeader name => do
    let reader ← reader.finish
    return { reader with
      section_name := name
      current := if name = "require".toList then some .default else none }
  | .Header name => do
    let reader ← reader.finish
    return { reader with section_name := name }
  | .Assignment key raw_value =>
    if reader.section_name = [] ∧ key = "name".toList then reader.read_name raw_value
    else if reader.section_name = "require".toList then reader.read_field key raw_value
    else .ok reader
  | .Unsupported => .error (input_error "unsupported lakefile.toml statement")

/-- What one line does. -/
def LakefileReader.read_line (reader : LakefileReader) (raw : Str) : ManagedResult LakefileReader :=
  reader.read_kind (line_kind (trim raw))

/-- `parse_supported_lakefile_toml`. -/
def parse_supported_lakefile_toml (text : Str) : ManagedResult LakeRootDeclarationV1 := do
  let reader ← (lines text).foldlM LakefileReader.read_line .start
  let reader ← reader.finish
  match reader.root_name with
  | none => .error (input_error "lakefile.toml root name is missing")
  | some root_name =>
    (LakeRootDeclarationV1.new root_name "lakefile.toml".toList reader.dependencies).mapError
      fun error => input_error error.message

end LeanBun.Intake
