/-
The canonical text of a Reservoir binding document and its identities.

The writer puts one fact on each line; the reader hands every value to its constructor
again and then the bindings to the constructor of the document, under the same lock. All
these values come back as they are, except that the URL is parsed once more: a document is
read back exactly when each of its URLs parses to itself. Its constructor sorts, so that
the order in which the bindings are given does not matter, and the bytes behind the
identities can be cut in one way only.
-/
import LeanBun.Lock.Digest
import LeanBun.Lock.Reservoir
import LeanBun.Lock.RoundTrip

set_option autoImplicit false

namespace LeanBun.Lock.Reservoir

open LeanBun.Lib LeanBun.Core LeanBun.Lock

/-! ## Writing -/

/-- The lines of one binding. -/
def binding_lines (binding : ReservoirBindingV1) : List Str :=
  [key_line "binding" binding.package,
    line "registry-identity" [binding.registry.sha256.to_string],
    line "requested-version" [hex (as_bytes binding.requested_version)],
    line "metadata-sha256" [binding.metadata_sha256.to_string],
    line "resolved-url" [hex (as_bytes binding.resolved_url.value)],
    line "exact-commit" [binding.exact_commit],
    line "download-integrity" [binding.download_integrity.to_string],
    line "source-tree-sha256" [binding.source_tree_sha256.to_string],
    line "selected-source-identity" [binding.selected_source_identity.to_string],
    line "binding-identity" [binding.identity.to_string],
    line "end-binding" []]

/-- The lines of a document. -/
def document_lines (document : ReservoirBindingDocumentV1) : List Str :=
  [line "leanbun-reservoir-bindings-v1" ["1".toList],
    line "lock-v1-identity" [document.lock_v1_identity.to_string],
    line "binding-count" [decimal document.bindings.length]] ++
  (document.bindings.flatMap binding_lines ++
    [line "document-identity" [document.identity.to_string], line "end-reservoir-bindings" []])

/-- `ReservoirBindingDocumentV1::to_canonical_text`. -/
def to_canonical_text (document : ReservoirBindingDocumentV1) : Str :=
  unlines (document_lines document)

/-! ## Reading -/

/-- A check of this part of the crate. -/
def require (p : Prop) [Decidable p] (error : ReservoirBindingV1Error) : BindingResult (PLift p) :=
  ensure p error

theorem require_ok {p : Prop} [Decidable p] (h : p) (error : ReservoirBindingV1Error) :
    require p error = .ok ⟨h⟩ := ensure_ok h error

/-- `noncanonical`. -/
def noncanonical (message : String) : ReservoirBindingV1Error := ⟨.NonCanonicalText, message⟩

/-- Reading from a `Cursor`. -/
abbrev CursorReader (α : Type) := LineReader ReservoirBindingV1Error Str α

/-- `Cursor::expect`. -/
def expect (label : String) (field_count : ℕ) : CursorReader (List Str) := fun lines =>
  match lines with
  | [] => .error (noncanonical ("missing " ++ label ++ " line"))
  | raw :: rest =>
    let fields := split '\t' raw
    if fields.head? ≠ some label.toList ∨ fields.length ≠ field_count + 1 then
      .error (noncanonical ("invalid " ++ label ++ " line"))
    else .ok (fields.tail, rest)

/-- `unhex`. -/
def unhex (value : Str) : BindingResult Str :=
  match unhex_bytes value with
  | none => .error (noncanonical "invalid canonical hex text")
  | some bytes =>
    match from_utf8 bytes with
    | none => .error (noncanonical "canonical text is not UTF-8")
    | some text => .ok text

/-- `parse_sha`. -/
def parse_sha (value : Str) : BindingResult Sha256 :=
  match Sha256.parse value with
  | none => .error (noncanonical "invalid SHA-256")
  | some digest => .ok digest

/-- `parse_usize` on a 64-bit platform. -/
def parse_usize (value : Str) : BindingResult ℕ :=
  if is_canonical_decimal value then
    if decimal_value value < 2 ^ 64 then .ok (decimal_value value)
    else .error (noncanonical "canonical count exceeds usize")
  else .error (noncanonical "invalid canonical count")

/-- An error of the lock's constructors, by its text. -/
def of_lock_result {α : Type} (result : LockResult α) : BindingResult α :=
  result.mapError fun error => noncanonical error.message

/-- A line with a digest. -/
def parse_sha_line (label : String) : CursorReader Sha256 := do
  let values ← expect label 1
  parse_sha (field values 0)

/-- A line with a text. -/
def parse_text_line (label : String) : CursorReader Str := do
  let values ← expect label 1
  unhex (field values 0)

/-- A line with a package key. -/
def parse_key : CursorReader PackageKeyV1 := do
  let key ← expect "binding" 2
  of_lock_result (PackageKeyV1.new (← unhex (field key 0)) (← unhex (field key 1)))

/-- The check of a binding against the identity that is written behind it. -/
def check_identity (expected_identity : Sha256) (binding : ReservoirBindingV1) :
    BindingResult ReservoirBindingV1 :=
  if binding.identity ≠ expected_identity then
    .error ⟨.DigestMismatch, "Reservoir binding identity does not match its fields"⟩
  else .ok binding

/-- The body of the loop of `parse_document`. -/
def parse_binding : CursorReader ReservoirBindingV1 := do
  let package ← parse_key
  let registry ← parse_sha_line "registry-identity"
  let requested_version ← parse_text_line "requested-version"
  let metadata_sha256 ← parse_sha_line "metadata-sha256"
  let raw_url ← parse_text_line "resolved-url"
  let resolved_url ← of_lock_result (CanonicalSourceUrlV1.parse raw_url)
  let exact_commit ← expect "exact-commit" 1
  let download_integrity ← parse_sha_line "download-integrity"
  let source_tree_sha256 ← parse_sha_line "source-tree-sha256"
  let selected_source_identity ← parse_sha_line "selected-source-identity"
  let expected_identity ← parse_sha_line "binding-identity"
  let _ ← expect "end-binding" 0
  let binding ← ReservoirBindingV1.new ⟨registry⟩ package requested_version metadata_sha256
    resolved_url (field exact_commit 0) download_integrity source_tree_sha256
    selected_source_identity
  check_identity expected_identity binding

/-- `binding-count` with its limits. -/
def parse_count : CursorReader ℕ := do
  let values ← expect "binding-count" 1
  let binding_count ← parse_usize (field values 0)
  let _ ← require (binding_count ≠ 0 ∧ binding_count ≤ MAX_RESERVOIR_BINDINGS_V1)
    ⟨.LimitExceeded, "Reservoir binding count is outside the supported range"⟩
  return binding_count

/-- The lines of `parse_document`: the bindings and the identity that is written. -/
def parse_fields (lock : LeanBunLockV1) : CursorReader (List ReservoirBindingV1 × Sha256) := do
  let header ← expect "leanbun-reservoir-bindings-v1" 1
  let _ ← require (field header 0 = "1".toList)
    (noncanonical "unsupported Reservoir binding schema")
  let lock_identity ← parse_sha_line "lock-v1-identity"
  let _ ← require (lock_identity = lock.identity)
    ⟨.IncompatibleLock, "Reservoir binding document names another V1 lock identity"⟩
  let binding_count ← parse_count
  let bindings ← parse_items parse_binding binding_count
  let expected_document ← parse_sha_line "document-identity"
  let _ ← expect "end-reservoir-bindings" 0
  return (bindings, expected_document)

/-- The document of the bindings that were read. -/
def to_document (lock : LeanBunLockV1) (fields : List ReservoirBindingV1 × Sha256) :
    BindingResult ReservoirBindingDocumentV1 := do
  let document ← ReservoirBindingDocumentV1.new lock fields.1
  let _ ← require (document.identity = fields.2)
    ⟨.DigestMismatch, "Reservoir binding document identity does not match its fields"⟩
  return document

/-- `parse_document`. -/
def parse_document (text : Str) (lock : LeanBunLockV1) :
    BindingResult ReservoirBindingDocumentV1 := do
  let (fields, rest) ← (parse_fields lock).run (lines text)
  let _ ← require (rest = []) (noncanonical "trailing Reservoir binding content")
  to_document lock fields

/-- `ReservoirBindingDocumentV1::from_canonical_text`. -/
def from_canonical_text (text : Str) (lock : LeanBunLockV1) :
    BindingResult ReservoirBindingDocumentV1 := do
  let parsed ← parse_document text lock
  let _ ← require (to_canonical_text parsed = text)
    (noncanonical "Reservoir binding text is valid but not canonical")
  return parsed

/-! ## Written values -/

@[simp] theorem unhex_hex (text : Str) : unhex (hex (as_bytes text)) = .ok text := by
  simp only [unhex, unhex_bytes_hex, from_utf8_as_bytes]

@[simp] theorem parse_sha_to_string (d : Sha256) : parse_sha d.to_string = .ok d := by
  simp only [parse_sha, Sha256.parse_to_string]

theorem parse_usize_decimal {n : ℕ} (h : n < 2 ^ 64) : parse_usize (decimal n) = .ok n := by
  rw [parse_usize, if_pos (decimal_canonical n), decimal_value_decimal, if_pos h]

/-- A written line is the line that is expected. -/
theorem expect_line {label : String} (hlabel : label_token label = true) (values : List Str)
    (hvalues : ∀ v ∈ values, IsToken v) :
    Reads (expect label values.length) [line label values] (.ok values) := by
  have hsplit : split '\t' (line label values) = label.toList :: values := by
    refine split_tab_line _ (by simp) ?_
    intro f hf
    rcases List.mem_cons.mp hf with rfl | hf
    · exact label_token_spec hlabel
    · exact hvalues f hf
  intro rest
  show expect label values.length (line label values :: rest) = .ok (values, rest)
  simp only [expect, hsplit]
  rw [if_neg (by simp)]
  rfl

theorem expect_one {label : String} (hlabel : label_token label = true) {v : Str} (hv : IsToken v) :
    Reads (expect label 1) [line label [v]] (.ok [v]) :=
  expect_line hlabel [v] fun w hw => by rw [List.mem_singleton.mp hw]; exact hv

theorem sha_line_reads {label : String} (hlabel : label_token label = true) (d : Sha256) :
    Reads (parse_sha_line label) [line label [d.to_string]] (.ok d) := by
  rw [← parse_sha_to_string d]
  exact (expect_one hlabel d.to_string_token).map_lift

theorem text_line_reads {label : String} (hlabel : label_token label = true) (text : Str) :
    Reads (parse_text_line label) [line label [hex (as_bytes text)]] (.ok text) := by
  rw [← unhex_hex text]
  exact (expect_one hlabel (hex_token _)).map_lift

theorem key_line_reads (key : PackageKeyV1) :
    Reads parse_key [key_line "binding" key] (.ok key) := by
  have hexpect : Reads (expect "binding" 2) [key_line "binding" key] _ :=
    expect_line (by decide) [hex (as_bytes key.scope), hex (as_bytes key.name)] (by
      intro v hv
      simp only [List.mem_cons, List.not_mem_nil, or_false] at hv
      rcases hv with rfl | rfl <;> exact hex_token _)
  refine hexpect.cons (Reads.check_ok (unhex_hex key.scope) (Reads.check_ok (unhex_hex key.name) ?_))
  rw [PackageKeyV1.new_self]
  exact Reads.lift _

theorem count_line_reads {n : ℕ} (hn : n ≠ 0) (hmax : n ≤ MAX_RESERVOIR_BINDINGS_V1) :
    Reads parse_count [line "binding-count" [decimal n]] (.ok n) := by
  have hsmall : n < 2 ^ 64 := lt_of_le_of_lt hmax (by decide)
  refine (expect_one (by decide) (decimal_token n)).cons
    (Reads.check_ok (parse_usize_decimal hsmall) (Reads.check_ok (require_ok ⟨hn, hmax⟩ _) ?_))
  exact Reads.pure n

/-! ## Bindings -/

/-- What the reader makes of the lines of a binding. -/
def reread (binding : ReservoirBindingV1) : BindingResult ReservoirBindingV1 := do
  let resolved_url ← of_lock_result (CanonicalSourceUrlV1.parse binding.resolved_url.value)
  let again ← ReservoirBindingV1.new binding.registry binding.package binding.requested_version
    binding.metadata_sha256 resolved_url binding.exact_commit binding.download_integrity
    binding.source_tree_sha256 binding.selected_source_identity
  check_identity binding.identity again

/-- **A written binding is read as its reread.** -/
theorem binding_reads (binding : ReservoirBindingV1) :
    Reads parse_binding (binding_lines binding) (reread binding) := by
  have hend : Reads (expect "end-binding" 0) [line "end-binding" []] (.ok []) :=
    expect_line (by decide) [] (by simp)
  have hcommit : Reads (expect "exact-commit" 1) [line "exact-commit" [binding.exact_commit]]
      (.ok [binding.exact_commit]) := expect_one (by decide) (revision_token binding.commit_valid)
  unfold parse_binding reread
  refine (key_line_reads binding.package).cons ?_
  refine (sha_line_reads (by decide) _).cons ?_
  refine (text_line_reads (by decide) _).cons ?_
  refine (sha_line_reads (by decide) _).cons ?_
  refine (text_line_reads (by decide) _).cons ?_
  refine Reads.check fun resolved_url _ => ?_
  refine hcommit.cons ?_
  refine (sha_line_reads (by decide) _).cons ?_
  refine (sha_line_reads (by decide) _).cons ?_
  refine (sha_line_reads (by decide) _).cons ?_
  refine (sha_line_reads (by decide) _).cons ?_
  refine hend.cons ?_
  rw [← List.append_nil ([] : List Str)]
  refine (Reads.lift _).seq fun again _ => ?_
  exact Reads.lift _

/-- The constructor returns its arguments. -/
theorem new_fields {registry : ReservoirRegistryIdentityV1} {package : PackageKeyV1}
    {requested_version exact_commit : Str} {resolved_url : CanonicalSourceUrlV1}
    {metadata_sha256 download_integrity source_tree_sha256 selected_source_identity : Sha256}
    {binding : ReservoirBindingV1} (h : ReservoirBindingV1.new registry package requested_version
      metadata_sha256 resolved_url exact_commit download_integrity source_tree_sha256
      selected_source_identity = .ok binding) :
    binding.package = package ∧ binding.resolved_url = resolved_url := by
  unfold ReservoirBindingV1.new at h
  obtain ⟨_, -, h⟩ := bind_eq_ok.mp h
  obtain ⟨_, -, h⟩ := bind_eq_ok.mp h
  cases h
  exact ⟨rfl, rfl⟩

/-- **A binding passes its own constructor.** -/
theorem new_self (binding : ReservoirBindingV1) :
    ReservoirBindingV1.new binding.registry binding.package binding.requested_version
      binding.metadata_sha256 binding.resolved_url binding.exact_commit binding.download_integrity
      binding.source_tree_sha256 binding.selected_source_identity = .ok binding := by
  unfold ReservoirBindingV1.new
  rw [ensure_ok binding.version_valid, ensure_ok binding.commit_valid]
  rfl

/-- Rereading keeps the package. -/
theorem reread_package {binding again : ReservoirBindingV1} (h : reread binding = .ok again) :
    again.package = binding.package := by
  obtain ⟨resolved_url, -, h⟩ := bind_eq_ok.mp h
  obtain ⟨made, hmade, h⟩ := bind_eq_ok.mp h
  unfold check_identity at h
  split at h
  · cases h
  · rw [← Except.ok.inj h]
    exact (new_fields hmade).1

/-- **A binding is reread as itself** exactly when its URL parses to itself. -/
theorem reread_self_iff (binding : ReservoirBindingV1) :
    reread binding = .ok binding ↔ reads_back binding.resolved_url.value = true := by
  rw [← CanonicalSourceUrlV1.parse_self_iff]
  constructor
  · intro h
    obtain ⟨resolved_url, hurl, h⟩ := bind_eq_ok.mp h
    obtain ⟨made, hmade, h⟩ := bind_eq_ok.mp h
    have hsame : made = binding := by
      unfold check_identity at h
      split at h
      · cases h
      · exact Except.ok.inj h
    rw [hsame] at hmade
    rw [(new_fields hmade).2]
    rw [(new_fields hmade).2] at hurl
    exact mapError_eq_ok.mp hurl
  · intro hurl
    unfold reread
    rw [hurl]
    show (ReservoirBindingV1.new _ _ _ _ _ _ _ _ _ >>= _) = _
    rw [new_self binding]
    show check_identity _ _ = _
    unfold check_identity
    rw [if_neg (not_not_intro rfl)]

/-! ## Documents -/

/-- The constructor sorts the bindings, has checked each and names the lock. -/
theorem new_eq_ok {lock : LeanBunLockV1} {bindings : List ReservoirBindingV1}
    {document : ReservoirBindingDocumentV1}
    (h : ReservoirBindingDocumentV1.new lock bindings = .ok document) :
    document.lock_v1_identity = lock.identity ∧
      document.bindings = sort_by_key ReservoirBindingV1.package bindings ∧
      ∀ binding ∈ document.bindings, check_binding lock binding = .ok () := by
  unfold ReservoirBindingDocumentV1.new at h
  obtain ⟨_, -, h⟩ := bind_eq_ok.mp h
  obtain ⟨_, -, h⟩ := bind_eq_ok.mp h
  obtain ⟨checked, hchecked, h⟩ := bind_eq_ok.mp h
  cases h
  refine ⟨rfl, rfl, fun binding hbinding => ?_⟩
  obtain ⟨result, -, hresult⟩ := forall₂_partner (mapM_eq_ok_iff.mp hchecked) hbinding
  exact hresult

theorem document_ext {a b : ReservoirBindingDocumentV1}
    (hlock : a.lock_v1_identity = b.lock_v1_identity) (hbindings : a.bindings = b.bindings) :
    a = b := by
  cases a
  cases b
  cases hlock
  cases hbindings
  rfl

/-- **A document passes its own constructor**, under the lock that it names and that has
its bindings. -/
theorem document_new_self {lock : LeanBunLockV1} (document : ReservoirBindingDocumentV1)
    (hlock : document.lock_v1_identity = lock.identity)
    (hchecked : ∀ binding ∈ document.bindings, check_binding lock binding = .ok ()) :
    ReservoirBindingDocumentV1.new lock document.bindings = .ok document := by
  have hsort : sort_by_key ReservoirBindingV1.package document.bindings = document.bindings :=
    document.bindings_sorted.sort_eq
  obtain ⟨units, hunits⟩ := mapM_checks.mpr hchecked
  unfold ReservoirBindingDocumentV1.new
  rw [ensure_ok ⟨document.bindings_present, document.count_bounded⟩]
  show (ensure _ _ >>= _) = _
  have hadjacent : adjacent_equal ReservoirBindingV1.package
      (sort_by_key ReservoirBindingV1.package document.bindings) = false := by
    rw [hsort]
    exact document.bindings_sorted.adjacent
  rw [ensure_ok hadjacent]
  show ((sort_by_key ReservoirBindingV1.package document.bindings).mapM (check_binding lock)
    >>= _) = _
  have hmapped : (sort_by_key ReservoirBindingV1.package document.bindings).mapM
      (check_binding lock) = .ok units := by rw [hsort]; exact hunits
  rw [hmapped]
  refine congrArg Except.ok (document_ext ?_ ?_)
  · exact hlock.symm
  · exact hsort

/-- **The order of the bindings** makes no difference to the constructor. -/
theorem new_perm (lock : LeanBunLockV1) {bindings bindings' : List ReservoirBindingV1}
    (hperm : bindings.Perm bindings') :
    ReservoirBindingDocumentV1.new lock bindings = ReservoirBindingDocumentV1.new lock bindings' := by
  have hcount : (bindings ≠ [] ∧ bindings.length ≤ MAX_RESERVOIR_BINDINGS_V1) ↔
      bindings' ≠ [] ∧ bindings'.length ≤ MAX_RESERVOIR_BINDINGS_V1 := by
    have hnil : bindings = [] ↔ bindings' = [] :=
      ⟨fun h => (h ▸ hperm).nil_eq.symm, fun h => (h ▸ hperm).eq_nil⟩
    rw [hperm.length_eq, ne_eq, ne_eq, hnil]
  have hduplicate : adjacent_equal ReservoirBindingV1.package
        (sort_by_key ReservoirBindingV1.package bindings) = false ↔
      adjacent_equal ReservoirBindingV1.package
        (sort_by_key ReservoirBindingV1.package bindings') = false := by
    rw [adjacent_equal_sort_iff, adjacent_equal_sort_iff]
    exact (hperm.map _).nodup_iff
  unfold ReservoirBindingDocumentV1.new
  refine ensure_bind_congr hcount fun _ _ => ?_
  refine ensure_bind_congr hduplicate fun hunique _ => ?_
  have hsort : sort_by_key ReservoirBindingV1.package bindings =
      sort_by_key ReservoirBindingV1.package bindings' :=
    sort_by_key_perm_eq _ hperm ((adjacent_equal_sort_iff _).mp hunique)
  have hchecks : (sort_by_key ReservoirBindingV1.package bindings).mapM (check_binding lock) =
      (sort_by_key ReservoirBindingV1.package bindings').mapM (check_binding lock) := by rw [hsort]
  rw [hchecks]
  cases (sort_by_key ReservoirBindingV1.package bindings').mapM (check_binding lock) with
  | error e => rfl
  | ok units => exact congrArg Except.ok (document_ext rfl hsort)

/-! ## Reading a written document -/

/-- The lines that the reader does not split. -/
theorem binding_lines_plain (binding : ReservoirBindingV1) :
    ∀ ln ∈ binding_lines binding, PlainLine ln := by
  intro ln hln
  simp only [binding_lines, List.mem_cons, List.not_mem_nil, or_false] at hln
  rcases hln with rfl | rfl | rfl | rfl | rfl | rfl | rfl | rfl | rfl | rfl | rfl
  · exact key_line_plain (by decide) _
  · exact line_one_plain (by decide) (Sha256.to_string_token _)
  · exact line_one_plain (by decide) (hex_token _)
  · exact line_one_plain (by decide) (Sha256.to_string_token _)
  · exact line_one_plain (by decide) (hex_token _)
  · exact line_one_plain (by decide) (revision_token binding.commit_valid)
  · exact line_one_plain (by decide) (Sha256.to_string_token _)
  · exact line_one_plain (by decide) (Sha256.to_string_token _)
  · exact line_one_plain (by decide) (Sha256.to_string_token _)
  · exact line_one_plain (by decide) (Sha256.to_string_token _)
  · exact line_plain (by decide) [] (by simp)

theorem document_lines_plain (document : ReservoirBindingDocumentV1) :
    ∀ ln ∈ document_lines document, PlainLine ln := by
  intro ln hln
  simp only [document_lines, List.cons_append, List.nil_append, List.mem_cons, List.mem_append,
    List.mem_flatMap, List.not_mem_nil, or_false] at hln
  rcases hln with rfl | rfl | rfl | ⟨binding, -, hln⟩ | rfl | rfl
  · exact line_one_plain (by decide) (label_token_spec (by decide))
  · exact line_one_plain (by decide) (Sha256.to_string_token _)
  · exact line_one_plain (by decide) (decimal_token _)
  · exact binding_lines_plain binding ln hln
  · exact line_one_plain (by decide) (Sha256.to_string_token _)
  · exact line_plain (by decide) [] (by simp)

/-- What the reader makes of the lines of a document. -/
def reread_fields (document : ReservoirBindingDocumentV1) :
    BindingResult (List ReservoirBindingV1 × Sha256) := do
  let bindings ← document.bindings.mapM reread
  return (bindings, document.identity)

/-- **The lines of a document are read as their reread**, under the lock that they name. -/
theorem document_lines_read {lock : LeanBunLockV1} (document : ReservoirBindingDocumentV1)
    (hlock : document.lock_v1_identity = lock.identity) :
    Reads (parse_fields lock) (document_lines document) (reread_fields document) := by
  have hheader : Reads (expect "leanbun-reservoir-bindings-v1" 1)
      [line "leanbun-reservoir-bindings-v1" ["1".toList]] (.ok ["1".toList]) :=
    expect_one (by decide) (label_token_spec (by decide))
  have hcount : Reads parse_count [line "binding-count" [decimal document.bindings.length]]
      (.ok document.bindings.length) :=
    count_line_reads (fun h => document.bindings_present (List.length_eq_zero_iff.mp h))
      document.count_bounded
  have hbindings : Reads (parse_items parse_binding document.bindings.length)
      (document.bindings.flatMap binding_lines) (document.bindings.mapM reread) :=
    Reads.items binding_lines reread document.bindings fun binding _ => binding_reads binding
  have hend : Reads (expect "end-reservoir-bindings" 0) [line "end-reservoir-bindings" []]
      (.ok []) := expect_line (by decide) [] (by simp)
  unfold parse_fields reread_fields
  refine hheader.cons (Reads.check_ok (require_ok rfl _) ?_)
  refine (sha_line_reads (by decide) _).cons (Reads.check_ok (require_ok hlock _) ?_)
  refine hcount.cons ?_
  refine hbindings.seq fun bindings _ => ?_
  refine (sha_line_reads (by decide) _).cons ?_
  exact hend.cons (Reads.pure _)

/-- **Reading a written document** is its reread and the constructor. -/
theorem parse_document_written {lock : LeanBunLockV1} (document : ReservoirBindingDocumentV1)
    (hlock : document.lock_v1_identity = lock.identity) :
    parse_document (to_canonical_text document) lock =
      reread_fields document >>= to_document lock := by
  have hlines : lines (to_canonical_text document) = document_lines document :=
    lines_unlines _ (document_lines_plain document)
  have hread := document_lines_read document hlock []
  rw [List.append_nil] at hread
  unfold parse_document
  rw [hlines, hread]
  cases reread_fields document with
  | error e => rfl
  | ok fields => rfl


/-- Rereading a list of bindings keeps their packages. -/
theorem reread_packages {bindings again : List ReservoirBindingV1}
    (h : List.Forall₂ (fun b a => reread b = .ok a) bindings again) :
    again.map ReservoirBindingV1.package = bindings.map ReservoirBindingV1.package := by
  induction h with
  | nil => rfl
  | cons hread _ ih => rw [List.map_cons, List.map_cons, ih, reread_package hread]

/-- If a written document is read back, every binding rereads to itself. -/
theorem bindings_reread_of_read_back {lock : LeanBunLockV1} {document : ReservoirBindingDocumentV1}
    (hlock : document.lock_v1_identity = lock.identity)
    (h : from_canonical_text (to_canonical_text document) lock = .ok document) :
    ∀ binding ∈ document.bindings, reread binding = .ok binding := by
  unfold from_canonical_text at h
  rw [parse_document_written document hlock] at h
  obtain ⟨parsed, hparse, h⟩ := bind_eq_ok.mp h
  obtain ⟨_, -, h⟩ := bind_eq_ok.mp h
  cases h
  obtain ⟨fields, hfields, hdocument⟩ := bind_eq_ok.mp hparse
  obtain ⟨bindings, hbindings, hfields⟩ := bind_eq_ok.mp hfields
  cases hfields
  obtain ⟨made, hnew, h⟩ := bind_eq_ok.mp hdocument
  obtain ⟨_, -, h⟩ := bind_eq_ok.mp h
  cases h
  have hall := mapM_eq_ok_iff.mp hbindings
  -- the packages are kept, so the reread bindings are sorted already
  have hsorted : StrictlySorted ReservoirBindingV1.package bindings := by
    have hkeys : (document.bindings.map ReservoirBindingV1.package).Pairwise (· < ·) :=
      List.pairwise_map.mpr document.bindings_sorted
    rw [← reread_packages hall] at hkeys
    exact List.pairwise_map.mp hkeys
  have hsame : document.bindings = bindings := by
    rw [(new_eq_ok hnew).2.1]
    exact hsorted.sort_eq
  rw [← hsame, List.forall₂_same] at hall
  exact hall

/-- If every binding rereads to itself, the written document is read back. -/
theorem read_back_of_bindings_reread {lock : LeanBunLockV1} {document : ReservoirBindingDocumentV1}
    (hlock : document.lock_v1_identity = lock.identity)
    (hchecked : ∀ binding ∈ document.bindings, check_binding lock binding = .ok ())
    (h : ∀ binding ∈ document.bindings, reread binding = .ok binding) :
    from_canonical_text (to_canonical_text document) lock = .ok document := by
  have hbindings : document.bindings.mapM reread = .ok document.bindings :=
    mapM_eq_ok_iff.mpr (List.forall₂_same.mpr h)
  have hdocument : (reread_fields document >>= to_document lock) = .ok document := by
    unfold reread_fields to_document
    rw [hbindings]
    show (ReservoirBindingDocumentV1.new _ _ >>= _) = _
    rw [document_new_self document hlock hchecked]
    show (require _ _ >>= _) = _
    rw [require_ok rfl]
    rfl
  unfold from_canonical_text
  rw [parse_document_written document hlock, hdocument]
  show (require _ _ >>= _) = _
  rw [require_ok rfl]
  rfl

/-- **Which documents are read back.** -/
theorem read_back_iff {lock : LeanBunLockV1} {document : ReservoirBindingDocumentV1}
    {bindings : List ReservoirBindingV1}
    (hnew : ReservoirBindingDocumentV1.new lock bindings = .ok document) :
    from_canonical_text (to_canonical_text document) lock = .ok document ↔
      ∀ binding ∈ bindings, reads_back binding.resolved_url.value = true := by
  obtain ⟨hlock, hsort, hchecked⟩ := new_eq_ok hnew
  have hself : (∀ binding ∈ document.bindings, reread binding = .ok binding) ↔
      ∀ binding ∈ bindings, reads_back binding.resolved_url.value = true := by
    rw [hsort]
    constructor
    · exact fun h binding hbinding =>
        (reread_self_iff binding).mp (h binding ((mem_sort_by_key _).mpr hbinding))
    · exact fun h binding hbinding =>
        (reread_self_iff binding).mpr (h binding ((mem_sort_by_key _).mp hbinding))
  rw [← hself]
  exact ⟨bindings_reread_of_read_back hlock, read_back_of_bindings_reread hlock hchecked⟩

/-! ## Identities -/

/-- What `document_identity` feeds to the hasher. -/
def document_bytes (document : ReservoirBindingDocumentV1) : List UInt8 :=
  as_bytes "leanbun-reservoir-binding-document-v1\x00".toList ++
    (document.lock_v1_identity.bytes ++ (be64 document.bindings.length ++
      document.bindings.flatMap fun binding => binding.identity.bytes))

theorem identity_eq (document : ReservoirBindingDocumentV1) :
    document.identity = digest (document_bytes document) := rfl

/-- **The preimage of a binding identity** determines the binding. -/
theorem binding_bytes_injective {a b : ReservoirBindingV1} (h : binding_bytes a = binding_bytes b) :
    a = b := by
  have hshort (binding : ReservoirBindingV1) : ShortText binding.requested_version ∧
      ShortText binding.exact_commit := by
    have hversion := valid_atom_length binding.version_valid
    have hcommit := binding.commit_valid
    unfold valid_git_revision at hcommit
    rw [Bool.and_eq_true, decide_eq_true_iff] at hcommit
    unfold ShortText
    unfold MAX_VERSION_BYTES at hversion
    omega
  unfold binding_bytes at h
  have h := List.append_cancel_left h
  obtain ⟨hregistry, h⟩ := sha_bytes_delimited _ _ _ _ trivial trivial h
  obtain ⟨hpackage, h⟩ := key_bytes_delimited _ _ _ _ trivial trivial h
  obtain ⟨hversion, h⟩ := string_bytes_delimited _ _ _ _ (hshort a).1 (hshort b).1 h
  obtain ⟨hmetadata, h⟩ := sha_bytes_delimited _ _ _ _ trivial trivial h
  obtain ⟨hurl, h⟩ := string_bytes_delimited _ _ _ _ (url_short _) (url_short _) h
  obtain ⟨hcommit, h⟩ := string_bytes_delimited _ _ _ _ (hshort a).2 (hshort b).2 h
  obtain ⟨hintegrity, h⟩ := sha_bytes_delimited _ _ _ _ trivial trivial h
  obtain ⟨htree, h⟩ := sha_bytes_delimited _ _ _ _ trivial trivial h
  have hselected := Sha256.ext h
  have hurl := CanonicalSourceUrlV1.ext hurl
  obtain ⟨⟨registry⟩, package, version, metadata, url, commit, integrity, tree, selected, _, _⟩ := a
  obtain ⟨⟨registry'⟩, package', version', metadata', url', commit', integrity', tree', selected',
    _, _⟩ := b
  cases hregistry
  cases hpackage
  cases hversion
  cases hmetadata
  cases hurl
  cases hcommit
  cases hintegrity
  cases htree
  cases hselected
  rfl

/-- The preimage of a document identity determines the lock that it names. -/
theorem document_bytes_lock {a b : ReservoirBindingDocumentV1}
    (h : document_bytes a = document_bytes b) : a.lock_v1_identity = b.lock_v1_identity := by
  unfold document_bytes at h
  exact (sha_bytes_delimited _ _ _ _ trivial trivial (List.append_cancel_left h)).1

/-- **Reservoir binding documents.** A document that the constructor has made under a lock is
read back from its text under this lock exactly when no URL of its bindings ends in `.git`, `/`,
`/.` or `/..`. The constructor does not look at the order of the bindings. Documents with equal
preimages of their own identity and of those of their bindings are equal. -/
theorem reservoir_documents_read_back_iff (lock : LeanBunLockV1)
    (bindings : List ReservoirBindingV1) :
    (∀ document, ReservoirBindingDocumentV1.new lock bindings = .ok document →
      (from_canonical_text (to_canonical_text document) lock = .ok document ↔
        ∀ binding ∈ bindings, reads_back binding.resolved_url.value = true)) ∧
    (∀ bindings', bindings.Perm bindings' →
      ReservoirBindingDocumentV1.new lock bindings =
        ReservoirBindingDocumentV1.new lock bindings') ∧
    ∀ a b : ReservoirBindingDocumentV1, document_bytes a = document_bytes b →
      a.bindings.map binding_bytes = b.bindings.map binding_bytes → a = b := by
  refine ⟨fun _ => read_back_iff, fun _ => new_perm lock, fun a b hdocument hbindings => ?_⟩
  refine document_ext (document_bytes_lock hdocument) ?_
  exact List.map_injective_iff.mpr (fun _ _ => binding_bytes_injective) hbindings

/-! ## A document that is not read back -/

/-- The binding of the package of `double_git_lock`. -/
def double_git_binding : ReservoirBindingV1 :=
  ⟨⟨Sha256.repeated 7⟩, double_git_package.key, "v1".toList, Sha256.repeated 4,
    double_git_url, List.replicate 40 '1', Sha256.repeated 1, Sha256.repeated 2,
    double_git_package.selected_source_identity, by decide, ones_revision_valid⟩

/-- **A document that is not read back.** The locked URL is `https://h/a.git`, parsed from
`https://h/a.git.git`; it is parsed once more when the text is read. -/
theorem double_git_document_not_read_back : ∃ document,
    ReservoirBindingDocumentV1.new double_git_lock [double_git_binding] = .ok document ∧
    from_canonical_text (to_canonical_text document) double_git_lock ≠ .ok document := by
  have hchecked : check_binding double_git_lock double_git_binding = .ok () := by decide
  let document : ReservoirBindingDocumentV1 :=
    ⟨double_git_lock.identity, [double_git_binding], by simp, by decide, List.pairwise_singleton _ _⟩
  have hnew : ReservoirBindingDocumentV1.new double_git_lock [double_git_binding] = .ok document := by
    refine document_new_self document rfl fun binding hbinding => ?_
    rw [List.mem_singleton.mp hbinding]
    exact hchecked
  refine ⟨document, hnew, fun hread => ?_⟩
  have hurl := (read_back_iff hnew).mp hread double_git_binding List.mem_cons_self
  exact absurd hurl (by decide)

end LeanBun.Lock.Reservoir
