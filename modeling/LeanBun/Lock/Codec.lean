/-
The canonical text of a lock and its reader.

`to_canonical_text` writes one tab-separated line per fact; `parse_lock` reads
the lines in the same order and hands every value to its public constructor
again. The reader of a written package therefore computes `reread`: the same
package with its source URL parsed once more. Everything else is a fixed point,
so a lock is read back exactly when each of its URLs is one, and `reads_back`
says which URLs are.
-/
import LeanBun.Lock.Graph
import LeanBun.Lib.LineReader

set_option autoImplicit false

namespace LeanBun.Lock

open LeanBun.Lib LeanBun.Core

/-! ## Writing -/

/-- `line`: a label and its values, tab-separated. -/
def line (label : String) (values : List Str) : Str := tab_line (label.toList :: values)

def dash : Str := ['-']

/-- The value of `line_optional_sha`. -/
def encode_optional_sha (value : Option Sha256) : Str := (value.map Sha256.to_string).getD dash

/-- `encode_optional_text`. -/
def encode_optional_text (value : Option Str) : Str :=
  (value.map fun text => hex (as_bytes text)).getD dash

/-- `encode_requested`. -/
def encode_requested : RequestedPackageSourceV1 → Str
  | .Git url requested_revision _ =>
    line "requested" ["git".toList, hex (as_bytes url.value), encode_optional_text requested_revision]
  | .PathSnapshot portable_path_token _ =>
    line "requested" ["path-snapshot".toList, hex (as_bytes portable_path_token), dash]

/-- `encode_resolved`. -/
def encode_resolved : ResolvedPackageSourceV1 → Str
  | .Git url exact_revision subdir _ _ =>
    line "resolved" ["git".toList, hex (as_bytes url.value), exact_revision,
      encode_optional_text subdir]
  | .PathSnapshot portable_path_token _ =>
    line "resolved" ["path-snapshot".toList, hex (as_bytes portable_path_token), dash, dash]

/-- A line with the scope and the name of a key. -/
def key_line (label : String) (key : PackageKeyV1) : Str :=
  line label [hex (as_bytes key.scope), hex (as_bytes key.name)]

/-- The lines of one package. -/
def package_lines (package : LockedLeanPackageV1) : List Str :=
  [key_line "package" package.key,
    encode_requested package.requested,
    encode_resolved package.resolved,
    line "download-integrity" [encode_optional_sha package.download_integrity],
    line "source-tree-sha256" [package.source_tree_sha256.to_string],
    line "config-sha256" [package.config_sha256.to_string],
    line "manifest-sha256" [encode_optional_sha package.manifest_sha256],
    line "selected-source-identity" [package.selected_source_identity.to_string],
    line "dependency-count" [decimal package.dependencies.length]] ++
  (package.dependencies.map (key_line "dependency") ++
    (line "provenance-count" [decimal package.provenance_digests.length] ::
      (package.provenance_digests.map (fun digest => line "provenance" [digest.to_string]) ++
        [line "end-package" []])))

/-- The lines of a lock. -/
def lock_lines (lock : LeanBunLockV1) : List Str :=
  [line "leanbun-lock-v1" ["1".toList],
    line "lean-toolchain" [hex (as_bytes lock.lean_toolchain)],
    line "lean-compiler-githash" [hex (as_bytes lock.lean_compiler_githash)],
    line "lake-version" [hex (as_bytes lock.lake_version)],
    line "root-config-sha256" [lock.root_config_sha256.to_string],
    line "root-declaration-sha256" [lock.root_declaration_sha256.to_string],
    line "package-count" [decimal lock.packages.length]] ++
  (lock.packages.flatMap package_lines ++
    [line "graph-sha256" [lock.graph_sha256.to_string], line "end-lock" []])

/-- `LeanBunLockV1::to_canonical_text`. -/
def LeanBunLockV1.to_canonical_text (lock : LeanBunLockV1) : Str := unlines (lock_lines lock)

/-- `LeanBunLockV1::identity`. -/
def LeanBunLockV1.identity (lock : LeanBunLockV1) : Sha256 :=
  digest (as_bytes "leanbun-lock-identity-v1\x00".toList ++ as_bytes lock.to_canonical_text)

/-! ## Reading -/

/-- Reading from `Lines`. -/
abbrev LockReader (α : Type) := LineReader LeanBunLockV1Error Str α

/-- `Lines::expect`: the next line has this label and this many values. -/
def expect (label : String) (fields : ℕ) : LockReader (List Str) := fun lines =>
  match lines with
  | [] => .error ⟨.NonCanonicalText, "missing " ++ label ++ " line"⟩
  | line :: rest =>
    let parts := split '\t' line
    if parts.length = fields + 1 ∧ parts.head? = some label.toList then .ok (parts.tail, rest)
    else .error ⟨.NonCanonicalText, "expected canonical " ++ label ++ " line"⟩

/-- `unhex` to text. -/
def unhex (value : Str) : LockResult Str :=
  match unhex_bytes value with
  | none => .error ⟨.NonCanonicalText, "invalid lowercase hex text token"⟩
  | some bytes =>
    match from_utf8 bytes with
    | none => .error ⟨.NonCanonicalText, "text token is not UTF-8"⟩
    | some text => .ok text

/-- `parse_usize` on a 64-bit platform. -/
def parse_usize (value : Str) : LockResult ℕ :=
  if is_canonical_decimal value then
    if decimal_value value < 2 ^ 64 then .ok (decimal_value value)
    else .error ⟨.LimitExceeded, "count exceeds platform limit"⟩
  else .error ⟨.NonCanonicalText, "invalid canonical count"⟩

/-- `parse_sha`. -/
def parse_sha (value : Str) : LockResult Sha256 :=
  match Sha256.parse value with
  | none => .error ⟨.NonCanonicalText, "invalid SHA-256"⟩
  | some digest => .ok digest

/-- `parse_optional_sha`. -/
def parse_optional_sha (value : Str) : LockResult (Option Sha256) :=
  if value = dash then .ok none else (parse_sha value).map some

/-- `parse_optional_text`. -/
def parse_optional_text (value : Str) : LockResult (Option Str) :=
  if value = dash then .ok none else (unhex value).map some

/-- A field of a line whose field count `expect` has checked. -/
def field (values : List Str) (i : ℕ) : Str := values.getD i []

/-- The `requested` line as a source. -/
def parse_requested (values : List Str) : LockResult RequestedPackageSourceV1 :=
  if field values 0 = "git".toList then do
    let url ← CanonicalSourceUrlV1.parse (← unhex (field values 1))
    RequestedPackageSourceV1.git url (← parse_optional_text (field values 2))
  else if field values 0 = "path-snapshot".toList ∧ field values 2 = dash then do
    RequestedPackageSourceV1.path_snapshot (← unhex (field values 1))
  else .error ⟨.NonCanonicalText, "invalid requested source"⟩

/-- The `resolved` line as a source. -/
def parse_resolved (values : List Str) : LockResult ResolvedPackageSourceV1 :=
  if field values 0 = "git".toList then do
    let url ← CanonicalSourceUrlV1.parse (← unhex (field values 1))
    ResolvedPackageSourceV1.git url (field values 2) (← parse_optional_text (field values 3))
  else if field values 0 = "path-snapshot".toList ∧ field values 2 = dash ∧ field values 3 = dash then
    do ResolvedPackageSourceV1.path_snapshot (← unhex (field values 1))
  else .error ⟨.NonCanonicalText, "invalid resolved source"⟩

/-- A line with a key. -/
def parse_key (label : String) : LockReader PackageKeyV1 := do
  let values ← expect label 2
  PackageKeyV1.new (← unhex (field values 0)) (← unhex (field values 1))

/-- A line with a required digest. -/
def parse_sha_line (label : String) : LockReader Sha256 := do
  let values ← expect label 1
  parse_sha (field values 0)

/-- A line with an optional digest. -/
def parse_optional_sha_line (label : String) : LockReader (Option Sha256) := do
  let values ← expect label 1
  parse_optional_sha (field values 0)

/-- A line with a text. -/
def parse_text_line (label : String) : LockReader Str := do
  let values ← expect label 1
  unhex (field values 0)

/-- A count line with its limit. -/
def parse_count (label : String) (maximum : ℕ) (message : String) : LockReader ℕ := do
  let values ← expect label 1
  let count ← parse_usize (field values 0)
  if maximum < count then throw ⟨.LimitExceeded, message⟩ else return count

/-- The body of the package loop of `parse_lock`. -/
def parse_package : LockReader LockedLeanPackageV1 := do
  let key ← parse_key "package"
  let requested ← parse_requested (← expect "requested" 3)
  let resolved ← parse_resolved (← expect "resolved" 4)
  let integrity ← parse_optional_sha_line "download-integrity"
  let tree ← parse_sha_line "source-tree-sha256"
  let config ← parse_sha_line "config-sha256"
  let manifest ← parse_optional_sha_line "manifest-sha256"
  let selected ← parse_sha_line "selected-source-identity"
  let dep_count ← parse_count "dependency-count" MAX_PACKAGE_DEPENDENCIES_V1
    "dependency count exceeds limit"
  let dependencies ← parse_items (parse_key "dependency") dep_count
  let provenance_count ← parse_count "provenance-count" MAX_PACKAGE_DEPENDENCIES_V1
    "provenance count exceeds limit"
  let provenance ← parse_items (parse_sha_line "provenance") provenance_count
  let _ ← expect "end-package" 0
  LockedLeanPackageV1.new key requested resolved integrity tree config manifest dependencies
    provenance selected

/-- The values that `parse_lock` has read when it looks for trailing records. -/
structure LockFields where
  toolchain : Str
  compiler : Str
  lake : Str
  root_config : Sha256
  root_declaration : Sha256
  packages : List LockedLeanPackageV1
  claimed_graph : Sha256

/-- The lines of `parse_lock`. -/
def parse_lock_fields : LockReader LockFields := do
  let header ← expect "leanbun-lock-v1" 1
  let _ ← require (field header 0 = "1".toList) .NonCanonicalText "unsupported schema version"
  let toolchain ← parse_text_line "lean-toolchain"
  let compiler ← parse_text_line "lean-compiler-githash"
  let lake ← parse_text_line "lake-version"
  let root_config ← parse_sha_line "root-config-sha256"
  let root_declaration ← parse_sha_line "root-declaration-sha256"
  let count ← parse_count "package-count" MAX_LOCK_PACKAGES_V1 "package count exceeds limit"
  let packages ← parse_items parse_package count
  let claimed_graph ← parse_sha_line "graph-sha256"
  let _ ← expect "end-lock" 0
  return ⟨toolchain, compiler, lake, root_config, root_declaration, packages, claimed_graph⟩

/-- The lock that the read values describe. -/
def LockFields.to_lock (fields : LockFields) : LockResult LeanBunLockV1 := do
  let lock ← LeanBunLockV1.new fields.toolchain fields.compiler fields.lake fields.root_config
    fields.root_declaration fields.packages
  let _ ← require (lock.graph_sha256 = fields.claimed_graph) .DigestMismatch
    "graph digest does not match canonical graph"
  return lock

/-- `parse_lock`. -/
def parse_lock (text : Str) : LockResult LeanBunLockV1 := do
  let _ ← require (text.getLast? = some '\n' ∧ '\r' ∉ text) .NonCanonicalText
    "lock must use one trailing LF and no CR"
  let (fields, rest) ← parse_lock_fields.run (lines text)
  let _ ← require (rest = []) .NonCanonicalText "trailing lock records"
  fields.to_lock

/-- `LeanBunLockV1::from_canonical_text`. -/
def LeanBunLockV1.from_canonical_text (text : Str) : LockResult LeanBunLockV1 := do
  let parsed ← parse_lock text
  let _ ← require (parsed.to_canonical_text = text) .NonCanonicalText
    "lock text is valid but not canonical"
  return parsed

/-! ## Written tokens -/

@[simp] theorem unhex_hex (text : Str) : unhex (hex (as_bytes text)) = .ok text := by
  simp only [unhex, unhex_bytes_hex, from_utf8_as_bytes]

@[simp] theorem parse_sha_to_string (d : Sha256) : parse_sha d.to_string = .ok d := by
  simp only [parse_sha, Sha256.parse_to_string]

@[simp] theorem parse_encode_optional_sha (value : Option Sha256) :
    parse_optional_sha (encode_optional_sha value) = .ok value := by
  cases value with
  | none => rfl
  | some d =>
    have hne : encode_optional_sha (some d) ≠ dash := Sha256.to_string_ne_dash d
    rw [parse_optional_sha, if_neg hne]
    exact congrArg (Except.map some) (parse_sha_to_string d)

@[simp] theorem parse_encode_optional_text (value : Option Str) :
    parse_optional_text (encode_optional_text value) = .ok value := by
  cases value with
  | none => rfl
  | some text =>
    have hne : encode_optional_text (some text) ≠ dash := hex_ne_dash (as_bytes text)
    rw [parse_optional_text, if_neg hne]
    exact congrArg (Except.map some) (unhex_hex text)

theorem parse_usize_decimal {n : ℕ} (h : n < 2 ^ 64) : parse_usize (decimal n) = .ok n := by
  rw [parse_usize, if_pos (decimal_canonical n), decimal_value_decimal, if_pos h]

theorem dash_token : IsToken dash := by
  intro c hc
  rw [dash, List.mem_singleton] at hc
  rw [hc]
  decide

theorem encode_optional_sha_token (value : Option Sha256) : IsToken (encode_optional_sha value) := by
  cases value with
  | none => exact dash_token
  | some d => exact d.to_string_token

theorem encode_optional_text_token (value : Option Str) : IsToken (encode_optional_text value) := by
  cases value with
  | none => exact dash_token
  | some text => exact hex_token _

theorem revision_token {revision : Str} (h : valid_git_revision revision = true) :
    IsToken revision := by
  intro c hc
  rw [valid_git_revision, Bool.and_eq_true] at h
  exact (is_lower_hex_token (List.all_eq_true.mp h.2 c hc)).1

/-- The decimal characters of a label are token characters. -/
def label_token (label : String) : Bool := label.toList.all is_token_char

theorem label_token_spec {label : String} (h : label_token label = true) :
    IsToken label.toList := fun c hc => List.all_eq_true.mp h c hc

/-! ## Lines read back -/

/-- **A written line is the line that is expected.** -/
theorem expect_line {label : String} (hlabel : label_token label = true) (values : List Str)
    (hvalues : ∀ v ∈ values, IsToken v) :
    Reads (expect label values.length) [line label values] (.ok values) := by
  have hsplit : split '\t' (line label values) = label.toList :: values := by
    refine split_tab_line _ (by simp) ?_
    intro f hf
    rcases List.mem_cons.mp hf with rfl | hf
    · exact label_token_spec hlabel
    · exact hvalues f hf
  intro rest
  show expect label values.length (line label values :: rest) = .ok (values, rest)
  simp only [expect, hsplit]
  rw [if_pos ⟨by simp, rfl⟩]
  rfl

theorem expect_one {label : String} (hlabel : label_token label = true) {v : Str} (hv : IsToken v) :
    Reads (expect label 1) [line label [v]] (.ok [v]) :=
  expect_line hlabel [v] fun w hw => by rw [List.mem_singleton.mp hw]; exact hv

theorem key_line_reads {label : String} (hlabel : label_token label = true) (key : PackageKeyV1) :
    Reads (parse_key label) [key_line label key] (.ok key) := by
  have hexpect : Reads (expect label 2) [key_line label key] _ :=
    expect_line hlabel [hex (as_bytes key.scope), hex (as_bytes key.name)] (by
      intro v hv
      simp only [List.mem_cons, List.not_mem_nil, or_false] at hv
      rcases hv with rfl | rfl <;> exact hex_token _)
  refine hexpect.cons (Reads.check_ok (unhex_hex key.scope) (Reads.check_ok (unhex_hex key.name) ?_))
  rw [PackageKeyV1.new_self]
  exact Reads.lift _

theorem sha_line_reads {label : String} (hlabel : label_token label = true) (d : Sha256) :
    Reads (parse_sha_line label) [line label [d.to_string]] (.ok d) := by
  rw [← parse_sha_to_string d]
  exact (expect_one hlabel d.to_string_token).map_lift

theorem optional_sha_line_reads {label : String} (hlabel : label_token label = true)
    (d : Option Sha256) :
    Reads (parse_optional_sha_line label) [line label [encode_optional_sha d]] (.ok d) := by
  rw [← parse_encode_optional_sha d]
  exact (expect_one hlabel (encode_optional_sha_token d)).map_lift

theorem text_line_reads {label : String} (hlabel : label_token label = true) (text : Str) :
    Reads (parse_text_line label) [line label [hex (as_bytes text)]] (.ok text) := by
  rw [← unhex_hex text]
  exact (expect_one hlabel (hex_token _)).map_lift

theorem count_line_reads {label : String} (hlabel : label_token label = true) {n maximum : ℕ}
    (hn : n ≤ maximum) (hmax : maximum < 2 ^ 64) (message : String) :
    Reads (parse_count label maximum message) [line label [decimal n]] (.ok n) := by
  refine (expect_one hlabel (decimal_token n)).cons
    (Reads.check_ok (parse_usize_decimal (by omega)) ?_)
  rw [if_neg (by omega)]
  exact Reads.pure n

/-! ## Sources read back -/

/-- What the reader makes of a written requested source. -/
def reread_requested : RequestedPackageSourceV1 → LockResult RequestedPackageSourceV1
  | .Git url requested_revision _ => do
    let url ← CanonicalSourceUrlV1.parse url.value
    RequestedPackageSourceV1.git url requested_revision
  | .PathSnapshot portable_path_token _ => RequestedPackageSourceV1.path_snapshot portable_path_token

/-- What the reader makes of a written resolved source. -/
def reread_resolved : ResolvedPackageSourceV1 → LockResult ResolvedPackageSourceV1
  | .Git url exact_revision subdir _ _ => do
    let url ← CanonicalSourceUrlV1.parse url.value
    ResolvedPackageSourceV1.git url exact_revision subdir
  | .PathSnapshot portable_path_token _ => ResolvedPackageSourceV1.path_snapshot portable_path_token

/-- What the reader makes of a written package. -/
def reread (p : LockedLeanPackageV1) : LockResult LockedLeanPackageV1 := do
  let requested ← reread_requested p.requested
  let resolved ← reread_resolved p.resolved
  LockedLeanPackageV1.new p.key requested resolved p.download_integrity p.source_tree_sha256
    p.config_sha256 p.manifest_sha256 p.dependencies p.provenance_digests
    p.selected_source_identity

/-- The values of the `requested` line. -/
def requested_values : RequestedPackageSourceV1 → List Str
  | .Git url requested_revision _ =>
    ["git".toList, hex (as_bytes url.value), encode_optional_text requested_revision]
  | .PathSnapshot portable_path_token _ =>
    ["path-snapshot".toList, hex (as_bytes portable_path_token), dash]

/-- The values of the `resolved` line. -/
def resolved_values : ResolvedPackageSourceV1 → List Str
  | .Git url exact_revision subdir _ _ =>
    ["git".toList, hex (as_bytes url.value), exact_revision, encode_optional_text subdir]
  | .PathSnapshot portable_path_token _ =>
    ["path-snapshot".toList, hex (as_bytes portable_path_token), dash, dash]

theorem parse_requested_values (r : RequestedPackageSourceV1) :
    parse_requested (requested_values r) = reread_requested r := by
  cases r with
  | Git url revision hvalid =>
    simp only [parse_requested, requested_values, reread_requested, field, List.getD_cons_zero,
      List.getD_cons_succ, if_true, unhex_hex, parse_encode_optional_text]
    rfl
  | PathSnapshot token hvalid =>
    have hne : "path-snapshot".toList ≠ "git".toList := by decide
    simp only [parse_requested, requested_values, reread_requested, field, List.getD_cons_zero,
      List.getD_cons_succ, if_neg hne, and_self, if_true, unhex_hex]
    rfl

theorem parse_resolved_values (r : ResolvedPackageSourceV1) :
    parse_resolved (resolved_values r) = reread_resolved r := by
  cases r with
  | Git url revision subdir hrev hsub =>
    simp only [parse_resolved, resolved_values, reread_resolved, field, List.getD_cons_zero,
      List.getD_cons_succ, if_true, unhex_hex, parse_encode_optional_text]
    rfl
  | PathSnapshot token hvalid =>
    have hne : "path-snapshot".toList ≠ "git".toList := by decide
    simp only [parse_resolved, resolved_values, reread_resolved, field, List.getD_cons_zero,
      List.getD_cons_succ, if_neg hne, and_self, if_true, unhex_hex]
    rfl

theorem encode_requested_eq (r : RequestedPackageSourceV1) :
    encode_requested r = line "requested" (requested_values r) := by cases r <;> rfl

theorem encode_resolved_eq (r : ResolvedPackageSourceV1) :
    encode_resolved r = line "resolved" (resolved_values r) := by cases r <;> rfl

theorem requested_values_token (r : RequestedPackageSourceV1) :
    ∀ v ∈ requested_values r, IsToken v := by
  intro v hv
  cases r with
  | Git url revision hvalid =>
    simp only [requested_values, List.mem_cons, List.not_mem_nil, or_false] at hv
    rcases hv with rfl | rfl | rfl
    · exact label_token_spec (by decide)
    · exact hex_token _
    · exact encode_optional_text_token revision
  | PathSnapshot token hvalid =>
    simp only [requested_values, List.mem_cons, List.not_mem_nil, or_false] at hv
    rcases hv with rfl | rfl | rfl
    · exact label_token_spec (by decide)
    · exact hex_token _
    · exact dash_token

theorem resolved_values_token (r : ResolvedPackageSourceV1) :
    ∀ v ∈ resolved_values r, IsToken v := by
  intro v hv
  cases r with
  | Git url revision subdir hrev hsub =>
    simp only [resolved_values, List.mem_cons, List.not_mem_nil, or_false] at hv
    rcases hv with rfl | rfl | rfl | rfl
    · exact label_token_spec (by decide)
    · exact hex_token _
    · exact revision_token hrev
    · exact encode_optional_text_token subdir
  | PathSnapshot token hvalid =>
    simp only [resolved_values, List.mem_cons, List.not_mem_nil, or_false] at hv
    rcases hv with rfl | rfl | rfl | rfl
    · exact label_token_spec (by decide)
    · exact hex_token _
    · exact dash_token
    · exact dash_token

theorem requested_line_reads (r : RequestedPackageSourceV1) :
    Reads (expect "requested" 3) [encode_requested r] (.ok (requested_values r)) := by
  have hlen : (requested_values r).length = 3 := by cases r <;> rfl
  rw [encode_requested_eq, ← hlen]
  exact expect_line (by decide) _ (requested_values_token r)

theorem resolved_line_reads (r : ResolvedPackageSourceV1) :
    Reads (expect "resolved" 4) [encode_resolved r] (.ok (resolved_values r)) := by
  have hlen : (resolved_values r).length = 4 := by cases r <;> rfl
  rw [encode_resolved_eq, ← hlen]
  exact expect_line (by decide) _ (resolved_values_token r)

/-! ## Packages and locks read back -/

/-- What is read after the requested and resolved sources of a package. -/
theorem package_tail_reads (p : LockedLeanPackageV1) (requested : RequestedPackageSourceV1)
    (resolved : ResolvedPackageSourceV1) :
    Reads (do
        let integrity ← parse_optional_sha_line "download-integrity"
        let tree ← parse_sha_line "source-tree-sha256"
        let config ← parse_sha_line "config-sha256"
        let manifest ← parse_optional_sha_line "manifest-sha256"
        let selected ← parse_sha_line "selected-source-identity"
        let dep_count ← parse_count "dependency-count" MAX_PACKAGE_DEPENDENCIES_V1
          "dependency count exceeds limit"
        let dependencies ← parse_items (parse_key "dependency") dep_count
        let provenance_count ← parse_count "provenance-count" MAX_PACKAGE_DEPENDENCIES_V1
          "provenance count exceeds limit"
        let provenance ← parse_items (parse_sha_line "provenance") provenance_count
        let _ ← expect "end-package" 0
        LockedLeanPackageV1.new p.key requested resolved integrity tree config manifest dependencies
          provenance selected)
      ((package_lines p).drop 3)
      (LockedLeanPackageV1.new p.key requested resolved p.download_integrity p.source_tree_sha256
        p.config_sha256 p.manifest_sha256 p.dependencies p.provenance_digests
        p.selected_source_identity) := by
  have hmax : MAX_PACKAGE_DEPENDENCIES_V1 < 2 ^ 64 := by decide
  have hdeps : Reads (parse_items (parse_key "dependency") p.dependencies.length)
      (p.dependencies.map (key_line "dependency")) (.ok p.dependencies) :=
    Reads.items_ok _ fun key _ => key_line_reads (by decide) key
  have hprov : Reads (parse_items (parse_sha_line "provenance") p.provenance_digests.length)
      (p.provenance_digests.map fun digest => line "provenance" [digest.to_string])
      (.ok p.provenance_digests) :=
    Reads.items_ok _ fun digest _ => sha_line_reads (by decide) digest
  have hend : Reads (expect "end-package" 0) [line "end-package" []] (.ok []) :=
    expect_line (by decide) [] (by simp)
  refine (optional_sha_line_reads (by decide) _).cons ?_
  refine (sha_line_reads (by decide) _).cons ?_
  refine (sha_line_reads (by decide) _).cons ?_
  refine (optional_sha_line_reads (by decide) _).cons ?_
  refine (sha_line_reads (by decide) _).cons ?_
  refine (count_line_reads (by decide) p.counts_bounded.1 hmax _).cons ?_
  refine hdeps.bind ?_
  refine (count_line_reads (by decide) p.counts_bounded.2 hmax _).cons ?_
  refine hprov.bind ?_
  exact hend.map_lift (y := fun _ => LockedLeanPackageV1.new p.key requested resolved _ _ _ _ _ _ _)

/-- **A written package is read as its reread.** -/
theorem package_reads (p : LockedLeanPackageV1) :
    Reads parse_package (package_lines p) (reread p) := by
  unfold parse_package reread
  refine (key_line_reads (by decide) p.key).cons ?_
  refine (requested_line_reads p.requested).cons ?_
  rw [parse_requested_values]
  refine Reads.check fun requested _ => ?_
  refine (resolved_line_reads p.resolved).cons ?_
  rw [parse_resolved_values]
  refine Reads.check fun resolved _ => ?_
  exact package_tail_reads p requested resolved

/-- What the reader makes of the lines of a lock. -/
def reread_fields (l : LeanBunLockV1) : LockResult LockFields := do
  let packages ← l.packages.mapM reread
  return ⟨l.lean_toolchain, l.lean_compiler_githash, l.lake_version, l.root_config_sha256,
    l.root_declaration_sha256, packages, l.graph_sha256⟩

/-- **The lines of a lock are read as their reread.** -/
theorem lock_lines_read (l : LeanBunLockV1) :
    Reads parse_lock_fields (lock_lines l) (reread_fields l) := by
  have hheader : Reads (expect "leanbun-lock-v1" 1) [line "leanbun-lock-v1" ["1".toList]]
      (.ok ["1".toList]) := expect_one (by decide) (label_token_spec (by decide))
  have hcount : Reads (parse_count "package-count" MAX_LOCK_PACKAGES_V1 _)
      [line "package-count" [decimal l.packages.length]] (.ok l.packages.length) :=
    count_line_reads (by decide) l.count_bounded (by decide) "package count exceeds limit"
  have hpackages : Reads (parse_items parse_package l.packages.length)
      (l.packages.flatMap package_lines) (l.packages.mapM reread) :=
    Reads.items package_lines reread l.packages fun p _ => package_reads p
  have hend : Reads (expect "end-lock" 0) [line "end-lock" []] (.ok []) :=
    expect_line (by decide) [] (by simp)
  unfold parse_lock_fields reread_fields
  refine hheader.cons (Reads.check_ok (require_ok rfl _ _) ?_)
  refine (text_line_reads (by decide) _).cons ?_
  refine (text_line_reads (by decide) _).cons ?_
  refine (text_line_reads (by decide) _).cons ?_
  refine (sha_line_reads (by decide) _).cons ?_
  refine (sha_line_reads (by decide) _).cons ?_
  refine hcount.cons ?_
  refine hpackages.seq fun packages _ => ?_
  refine (sha_line_reads (by decide) _).cons ?_
  refine hend.cons ?_
  exact Reads.pure _

end LeanBun.Lock
