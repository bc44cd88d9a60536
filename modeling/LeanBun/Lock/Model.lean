/-
The values a locked package is made of, with the checks of their public constructors.

A constructed value carries what its constructor checked: a package key carries
its two atoms, a source URL the text it was parsed from, a source its path token
or revision. The checks return their evidence, so a constructor reads as the
source does and still builds the proof fields; the `_ok` lemmas say that a value
passes its own constructor again.
-/
import LeanBun.Core.Encoding
import LeanBun.Lib.Sorted
import LeanBun.Lib.Check

set_option autoImplicit false

namespace LeanBun.Lock

open LeanBun.Lib LeanBun.Core

/-! ## Limits and errors -/

def MAX_LOCK_PACKAGES_V1 : ℕ := 4096
def MAX_PACKAGE_DEPENDENCIES_V1 : ℕ := 4096
def MAX_GRAPH_DEPTH_V1 : ℕ := 128
def MAX_NAME_BYTES : ℕ := 256
def MAX_TEXT_BYTES : ℕ := 4096
def MAX_SUBDIR_BYTES : ℕ := 1024

/-- The kinds this part of the crate reports. -/
inductive LeanBunLockV1ErrorKind where
  | InvalidField
  | LimitExceeded
  | DuplicatePackage
  | DuplicateDependency
  | MissingPackage
  | DependencyCycle
  | GraphTooDeep
  | AbsolutePortablePath
  | DuplicateProvenance
  | IncompatibleProvenance
  | AmbiguousSelection
  | DuplicateDecision
  | MissingDecision
  | ExtraPackage
  | PathOutsideGenerationRoot
  | NonCanonicalText
  | DigestMismatch
deriving DecidableEq

structure LeanBunLockV1Error where
  kind : LeanBunLockV1ErrorKind
  message : String
deriving DecidableEq

/-- A result of the crate. -/
abbrev LockResult (α : Type) := Except LeanBunLockV1Error α

/-- A check of the crate. -/
def require (p : Prop) [Decidable p] (kind : LeanBunLockV1ErrorKind) (message : String) :
    LockResult (PLift p) := ensure p ⟨kind, message⟩

theorem require_ok {p : Prop} [Decidable p] (h : p) (kind : LeanBunLockV1ErrorKind)
    (message : String) : require p kind message = .ok ⟨h⟩ := ensure_ok h _

/-! ## Text validators -/

/-- What `validate_atom` accepts. -/
def valid_atom (value : Str) (maximum : ℕ) (allow_empty : Bool) : Bool :=
  !((!allow_empty && value.isEmpty) || decide (maximum < byte_len value) || value.any is_control)

def validate_atom (value : Str) (maximum : ℕ) (allow_empty : Bool) (label : String) :
    LockResult (PLift (valid_atom value maximum allow_empty = true)) :=
  require _ .InvalidField (label ++ " is empty, too long, or contains control characters")

/-- An accepted atom is short. -/
theorem valid_atom_length {value : Str} {maximum : ℕ} {allow_empty : Bool}
    (h : valid_atom value maximum allow_empty = true) : byte_len value ≤ maximum := by
  unfold valid_atom at h
  simp only [Bool.not_eq_true', Bool.or_eq_false_iff, decide_eq_false_iff_not, not_lt] at h
  exact h.1.2

/-- What `validate_git_revision` accepts. -/
def valid_git_revision (value : Str) : Bool :=
  decide (byte_len value = 40) && value.all is_lower_hex

def validate_git_revision (value : Str) : LockResult (PLift (valid_git_revision value = true)) :=
  require _ .InvalidField "Git revision must be exactly 40 lowercase hexadecimal bytes"

/-- A path segment that names an entry: not empty, `.` or `..`. -/
def direct_segment (part : Str) : Bool :=
  !(part.isEmpty || decide (part = ['.']) || decide (part = ['.', '.']))

/-- What `validate_relative_path` accepts. -/
def valid_relative_path (value : Str) (maximum : ℕ) : Bool :=
  valid_atom value maximum false && !(value.contains '\\') && (split '/' value).all direct_segment

def validate_relative_path (value : Str) (maximum : ℕ) (label : String) :
    LockResult (PLift (valid_relative_path value maximum = true)) := do
  let ⟨hatom⟩ ← validate_atom value maximum false label
  let ⟨hpath⟩ ← require ((!(value.contains '\\') && (split '/' value).all direct_segment) = true)
    .InvalidField (label ++ " must be a normalized relative slash path")
  return ⟨by rw [valid_relative_path, hatom, Bool.and_assoc, hpath]; rfl⟩

/-- Starts with a slash, a backslash, or a byte and a colon. -/
def absolute_portable_path (value : Str) : Bool :=
  decide (value.head? = some '/') || decide (value.head? = some '\\') ||
    decide ((as_bytes value)[1]? = some 58)

/-- What `validate_portable_path` accepts. -/
def valid_portable_path (value : Str) : Bool :=
  !absolute_portable_path value && valid_relative_path value MAX_TEXT_BYTES

def validate_portable_path (value : Str) : LockResult (PLift (valid_portable_path value = true)) := do
  let ⟨hrel⟩ ← require ((!absolute_portable_path value) = true) .AbsolutePortablePath
    "portable lock path must not be absolute"
  let ⟨hpath⟩ ← validate_relative_path value MAX_TEXT_BYTES "portable path token"
  return ⟨by rw [valid_portable_path, hrel, hpath]; rfl⟩

theorem validate_atom_ok {value : Str} {maximum : ℕ} {allow_empty : Bool}
    (h : valid_atom value maximum allow_empty = true) (label : String) :
    validate_atom value maximum allow_empty label = .ok ⟨h⟩ := require_ok h _ _

theorem validate_git_revision_ok {value : Str} (h : valid_git_revision value = true) :
    validate_git_revision value = .ok ⟨h⟩ := require_ok h _ _

theorem validate_relative_path_ok {value : Str} {maximum : ℕ}
    (h : valid_relative_path value maximum = true) (label : String) :
    validate_relative_path value maximum label = .ok ⟨h⟩ := by
  have hsplit := h
  simp only [valid_relative_path, Bool.and_assoc] at hsplit
  rw [Bool.and_eq_true] at hsplit
  obtain ⟨hatom, hpath⟩ := hsplit
  simp only [validate_relative_path, validate_atom_ok hatom, require_ok hpath, bind, Except.bind,
    pure, Except.pure]

theorem validate_portable_path_ok {value : Str} (h : valid_portable_path value = true) :
    validate_portable_path value = .ok ⟨h⟩ := by
  have hsplit := h
  rw [valid_portable_path, Bool.and_eq_true] at hsplit
  obtain ⟨hrel, hpath⟩ := hsplit
  simp only [validate_portable_path, require_ok hrel, validate_relative_path_ok hpath, bind,
    Except.bind, pure, Except.pure]

/-! ## Package keys -/

/-- `PackageKeyV1`: scope and name. -/
structure PackageKeyV1 where
  scope : Str
  name : Str
  scope_valid : valid_atom scope MAX_NAME_BYTES true = true
  name_valid : valid_atom name MAX_NAME_BYTES false = true
deriving DecidableEq

/-- `PackageKeyV1::new`. -/
def PackageKeyV1.new (scope name : Str) : LockResult PackageKeyV1 := do
  let ⟨hscope⟩ ← validate_atom scope MAX_NAME_BYTES true "package scope"
  let ⟨hname⟩ ← validate_atom name MAX_NAME_BYTES false "package name"
  return ⟨scope, name, hscope, hname⟩

/-- A key passes its own constructor. -/
@[simp] theorem PackageKeyV1.new_self (k : PackageKeyV1) :
    PackageKeyV1.new k.scope k.name = .ok k := by
  simp only [PackageKeyV1.new, validate_atom_ok k.scope_valid, validate_atom_ok k.name_valid, bind,
    Except.bind, pure, Except.pure]

theorem PackageKeyV1.ext {a b : PackageKeyV1} (hs : a.scope = b.scope) (hn : a.name = b.name) :
    a = b := by
  cases a
  cases b
  simp only [PackageKeyV1.mk.injEq]
  exact ⟨hs, hn⟩

/-- `derive(Ord)`: scope first, then name. The order of UTF-8 bytes is the order
of the code points. -/
instance : LinearOrder PackageKeyV1 :=
  LinearOrder.lift' (fun k => toLex (k.scope, k.name)) fun a b h => by
    have hpair : (a.scope, a.name) = (b.scope, b.name) := toLex.injective h
    exact PackageKeyV1.ext (congrArg Prod.fst hpair) (congrArg Prod.snd hpair)

/-! ## Source URLs -/

/-- `u8::is_ascii_whitespace`. -/
def is_ascii_whitespace (c : Char) : Bool :=
  decide (c = ' ') || decide (c = '\t') || decide (c = '\n') || decide (c = '\x0c') ||
    decide (c = '\r')

/-- Lowercase letters, digits, `.` and `-`. -/
def is_host_char (c : Char) : Bool :=
  decide ('a' ≤ c ∧ c ≤ 'z') || is_digit c || decide (c = '.') || decide (c = '-')

/-- A nonempty host label that neither starts nor ends with a hyphen. -/
def valid_host_label (label : Str) : Bool :=
  !(label.isEmpty || decide (label.head? = some '-') || decide (label.getLast? = some '-'))

def valid_host (host : Str) : Bool :=
  !host.isEmpty && host.all is_host_char && (split '.' host).all valid_host_label

/-- Characters the source looks for in the whole URL. -/
def is_url_char (c : Char) : Bool :=
  !(decide (c = '#') || decide (c = '?') || decide (c = '%') || decide (c = '\\') ||
    is_ascii_whitespace c)

/-- The normalization condition of `CanonicalSourceUrlV1::parse`. -/
def normalized_url (host path value : Str) : Bool :=
  valid_host host && (split '/' path).all direct_segment && value.all is_url_char

def https : Str := "https://".toList
def dot_git : Str := ".git".toList

/-- `if value.ends_with(".git") { value.truncate(value.len() - 4) }`. -/
def strip_dot_git (value : Str) : Str :=
  if dot_git.isSuffixOf value then value.take (value.length - 4) else value

/-- `CanonicalSourceUrlV1::parse` on the text. -/
def parse_source_url (value : Str) : LockResult Str := do
  let _ ← validate_atom value MAX_TEXT_BYTES false "source URL"
  match strip_prefix https value with
  | none => .error ⟨.InvalidField, "source URL must use canonical HTTPS"⟩
  | some remainder =>
    match split_once '/' remainder with
    | none => .error ⟨.InvalidField, "source URL must contain a host and repository path"⟩
    | some (host, path) =>
      if normalized_url host path value then .ok (strip_dot_git value)
      else .error ⟨.InvalidField,
        "source URL must be normalized HTTPS with a lowercase ASCII host and direct path segments"⟩

/-- `CanonicalSourceUrlV1`: a text that `parse` returned. -/
structure CanonicalSourceUrlV1 where
  value : Str
  parsed : ∃ raw, parse_source_url raw = .ok value

instance : DecidableEq CanonicalSourceUrlV1 := fun a b =>
  decidable_of_iff (a.value = b.value) (by cases a; cases b; simp)

theorem CanonicalSourceUrlV1.ext {a b : CanonicalSourceUrlV1} (h : a.value = b.value) : a = b := by
  cases a
  cases b
  simp only [CanonicalSourceUrlV1.mk.injEq]
  exact h

/-- `CanonicalSourceUrlV1::parse`. -/
def CanonicalSourceUrlV1.parse (raw : Str) : LockResult CanonicalSourceUrlV1 :=
  match h : parse_source_url raw with
  | .ok value => .ok ⟨value, raw, h⟩
  | .error e => .error e

/-- The text that `parse_source_url` returns comes from an accepted text. -/
theorem parse_source_url_cases {raw value : Str} (h : parse_source_url raw = .ok value) :
    valid_atom raw MAX_TEXT_BYTES false = true ∧ value = strip_dot_git raw ∧
      ∃ remainder host path, strip_prefix https raw = some remainder ∧
        split_once '/' remainder = some (host, path) ∧ normalized_url host path raw = true := by
  unfold parse_source_url at h
  by_cases hatom : valid_atom raw MAX_TEXT_BYTES false = true
  · rw [validate_atom_ok hatom] at h
    simp only [bind, Except.bind] at h
    cases hstart : strip_prefix https raw with
    | none => rw [hstart] at h; simp at h
    | some remainder =>
      rw [hstart] at h
      dsimp only at h
      cases hsplit : split_once '/' remainder with
      | none => rw [hsplit] at h; simp at h
      | some parts =>
        obtain ⟨host, path⟩ := parts
        rw [hsplit] at h
        dsimp only at h
        by_cases hnorm : normalized_url host path raw = true
        · rw [if_pos hnorm] at h
          exact ⟨hatom, (Except.ok.inj h).symm, remainder, host, path, rfl, hsplit, hnorm⟩
        · rw [if_neg hnorm] at h
          simp at h
  · rw [validate_atom, require, ensure_error hatom] at h
    simp [bind, Except.bind] at h

/-! ## Package sources -/

theorem no_text_valid (maximum : ℕ) :
    ∀ v ∈ (none : Option Str), valid_atom v maximum false = true := none_passes

theorem no_subdir_valid : ∀ v ∈ (none : Option Str), valid_relative_path v MAX_SUBDIR_BYTES = true :=
  none_passes

/-- A package may be without a scope. -/
theorem no_scope_valid : valid_atom [] MAX_NAME_BYTES true = true := by decide

/-- `RequestedPackageSourceV1`. -/
inductive RequestedPackageSourceV1 where
  | Git (url : CanonicalSourceUrlV1) (requested_revision : Option Str)
      (valid : ∀ v ∈ requested_revision, valid_atom v MAX_TEXT_BYTES false = true)
  | PathSnapshot (portable_path_token : Str) (valid : valid_portable_path portable_path_token = true)
deriving DecidableEq

/-- `RequestedPackageSourceV1::git`. -/
def RequestedPackageSourceV1.git (url : CanonicalSourceUrlV1) (requested_revision : Option Str) :
    LockResult RequestedPackageSourceV1 :=
  match requested_revision with
  | none => .ok (.Git url none (no_text_valid MAX_TEXT_BYTES))
  | some value => do
    let ⟨hvalue⟩ ← validate_atom value MAX_TEXT_BYTES false "requested revision"
    return .Git url (some value) (by simpa using hvalue)

/-- `RequestedPackageSourceV1::path_snapshot`. -/
def RequestedPackageSourceV1.path_snapshot (token : Str) : LockResult RequestedPackageSourceV1 := do
  let ⟨htoken⟩ ← validate_portable_path token
  return .PathSnapshot token htoken

/-- `ResolvedPackageSourceV1`. -/
inductive ResolvedPackageSourceV1 where
  | Git (url : CanonicalSourceUrlV1) (exact_revision : Str) (subdir : Option Str)
      (revision_valid : valid_git_revision exact_revision = true)
      (subdir_valid : ∀ v ∈ subdir, valid_relative_path v MAX_SUBDIR_BYTES = true)
  | PathSnapshot (portable_path_token : Str) (valid : valid_portable_path portable_path_token = true)
deriving DecidableEq

/-- `ResolvedPackageSourceV1::git`. -/
def ResolvedPackageSourceV1.git (url : CanonicalSourceUrlV1) (exact_revision : Str)
    (subdir : Option Str) : LockResult ResolvedPackageSourceV1 := do
  let ⟨hrevision⟩ ← validate_git_revision exact_revision
  match subdir with
  | none => return .Git url exact_revision none hrevision no_subdir_valid
  | some value =>
    let ⟨hvalue⟩ ← validate_relative_path value MAX_SUBDIR_BYTES "Git subdir"
    return .Git url exact_revision (some value) hrevision (by simpa using hvalue)

/-- `ResolvedPackageSourceV1::path_snapshot`. -/
def ResolvedPackageSourceV1.path_snapshot (token : Str) : LockResult ResolvedPackageSourceV1 := do
  let ⟨htoken⟩ ← validate_portable_path token
  return .PathSnapshot token htoken

theorem RequestedPackageSourceV1.git_ok (url : CanonicalSourceUrlV1) (requested_revision : Option Str)
    (h : ∀ v ∈ requested_revision, valid_atom v MAX_TEXT_BYTES false = true) :
    RequestedPackageSourceV1.git url requested_revision = .ok (.Git url requested_revision h) := by
  cases requested_revision with
  | none => rfl
  | some value =>
    have hvalue : valid_atom value MAX_TEXT_BYTES false = true := h value rfl
    simp only [RequestedPackageSourceV1.git, validate_atom_ok hvalue, bind, Except.bind, pure,
      Except.pure]

theorem RequestedPackageSourceV1.path_snapshot_ok {token : Str}
    (h : valid_portable_path token = true) :
    RequestedPackageSourceV1.path_snapshot token = .ok (.PathSnapshot token h) := by
  simp only [RequestedPackageSourceV1.path_snapshot, validate_portable_path_ok h, bind, Except.bind,
    pure, Except.pure]

theorem ResolvedPackageSourceV1.git_ok (url : CanonicalSourceUrlV1) (exact_revision : Str)
    (subdir : Option Str) (hrev : valid_git_revision exact_revision = true)
    (hsub : ∀ v ∈ subdir, valid_relative_path v MAX_SUBDIR_BYTES = true) :
    ResolvedPackageSourceV1.git url exact_revision subdir =
      .ok (.Git url exact_revision subdir hrev hsub) := by
  cases subdir with
  | none =>
    simp only [ResolvedPackageSourceV1.git, validate_git_revision_ok hrev, bind, Except.bind, pure,
      Except.pure]
  | some value =>
    have hvalue : valid_relative_path value MAX_SUBDIR_BYTES = true := hsub value rfl
    simp only [ResolvedPackageSourceV1.git, validate_git_revision_ok hrev,
      validate_relative_path_ok hvalue, bind, Except.bind, pure, Except.pure]

theorem ResolvedPackageSourceV1.path_snapshot_ok {token : Str}
    (h : valid_portable_path token = true) :
    ResolvedPackageSourceV1.path_snapshot token = .ok (.PathSnapshot token h) := by
  simp only [ResolvedPackageSourceV1.path_snapshot, validate_portable_path_ok h, bind, Except.bind,
    pure, Except.pure]

/-! ## Small values -/

theorem no_keys_sorted : StrictlySorted id ([] : List PackageKeyV1) := List.Pairwise.nil

theorem empty_digest_sorted : StrictlySorted Sha256.key [digest []] := List.pairwise_singleton _ _

theorem empty_digest_present : [digest []] ≠ [] := List.cons_ne_nil _ _

theorem five_digest_sorted : StrictlySorted Sha256.key [Sha256.repeated 5] :=
  List.pairwise_singleton _ _

theorem five_digest_present : [Sha256.repeated 5] ≠ [] := List.cons_ne_nil _ _

theorem five_digest_counted : ([] : List PackageKeyV1).length ≤ MAX_PACKAGE_DEPENDENCIES_V1 ∧
    [Sha256.repeated 5].length ≤ MAX_PACKAGE_DEPENDENCIES_V1 := by decide

theorem ones_revision_valid : valid_git_revision (List.replicate 40 '1') = true := by decide

theorem lean4_valid : valid_atom "lean4".toList MAX_TEXT_BYTES false = true := by decide

theorem lake_five_valid : valid_atom "5.0.0".toList MAX_NAME_BYTES false = true := by decide

theorem a_name_valid : valid_atom ['a'] MAX_NAME_BYTES false = true := by decide

theorem b_name_valid : valid_atom ['b'] MAX_NAME_BYTES false = true := by decide

theorem b_path_valid : valid_portable_path ['b'] = true := by decide

end LeanBun.Lock
