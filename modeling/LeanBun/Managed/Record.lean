/-
The record of a managed project: what the registry holds of an adopted project.

The record names the project and its build target, the digest of the inputs it
was adopted with, and up to four transactions: the one of the adoption, the
active one, the one a rollback goes back to, and one that was begun and has not
ended. It is written in one canonical form, and the reader refuses every other
text. A path with a control character can be written and not be read back.
-/
import LeanBun.Generation.Record

set_option autoImplicit false

namespace LeanBun.Managed

open LeanBun.Lib LeanBun.Core LeanBun.Generation

def MAX_RECORD_BYTES : ℕ := 64 * 1024

/-! ## Errors -/

/-- `ManagedProjectErrorKind`. -/
inductive ManagedProjectErrorKind where
  | BoundaryViolation
  | AlreadyAdopted
  | NotAdopted
  | UnsupportedDependencyGraph
  | InputDrift
  | PendingTransaction
  | NoPreviousGeneration
  | Store
  | Generation
  | Build
  | Io
deriving DecidableEq

/-- `ManagedProjectError`. -/
structure ManagedProjectError where
  kind : ManagedProjectErrorKind
  message : String
deriving DecidableEq

abbrev ManagedResult (α : Type) := Except ManagedProjectError α

def input_error (message : String) : ManagedProjectError := ⟨.InputDrift, message⟩
def boundary (message : String) : ManagedProjectError := ⟨.BoundaryViolation, message⟩

/-! ## Build targets -/

/-- `char::len_utf16`. -/
def len_utf16 (c : Char) : ℕ := if c.toNat < 0x10000 then 1 else 2

/-- `str::contains("..")`. -/
def has_double_dot (value : Str) : Bool := (value.zip value.tail).contains ('.', '.')

/-- `valid_build_target`. -/
def valid_build_target (value : Str) : Bool :=
  decide (0 < (value.map len_utf16).sum) && decide ((value.map len_utf16).sum ≤ 256) &&
    decide (value.head? ≠ some '-') && !has_double_dot value &&
    !value.any fun c => decide (c.toNat ≤ 0x1f) || decide (c.toNat = 0x7f)

/-- `validate_target`. -/
def validate_target (value : Str) : ManagedResult (PLift (valid_build_target value = true)) :=
  ensure _ (boundary "invalid Lean/Lake build target")

/-- A target stays on its line. -/
theorem valid_build_target_plain {value : Str} (h : valid_build_target value = true) :
    '\n' ∉ value := by
  unfold valid_build_target at h
  simp only [Bool.and_eq_true, Bool.not_eq_true', List.any_eq_false] at h
  intro hmem
  exact h.2 '\n' hmem (by decide)

/-! ## The record -/

/-- `ManagedRecordV1`. -/
structure ManagedRecordV1 where
  project_id : ProjectId
  project_root : Str
  target : Str
  management_input_sha256 : Sha256
  baseline_transaction : ExecutionId
  active_transaction : ExecutionId
  previous_transaction : Option ExecutionId
  pending_transaction : Option ExecutionId
  target_valid : valid_build_target target = true
deriving DecidableEq

def record_header : Str := "leanbun-managed-project-v1\t1".toList
def record_footer : Str := "end-managed-project".toList

/-- `map_or("-".to_owned(), |value| value.to_string())`. -/
def optional_transaction_text (transaction : Option ExecutionId) : Str :=
  transaction.elim ['-'] ExecutionId.as_str

/-- The fields of a record. -/
def record_fields (record : ManagedRecordV1) : List (Str × Str) :=
  [("project-id".toList, record.project_id.to_string),
  ("project-root".toList, record.project_root),
  ("target".toList, record.target),
  ("management-input-sha256".toList, record.management_input_sha256.to_string),
  ("baseline-transaction".toList, record.baseline_transaction.as_str),
  ("active-transaction".toList, record.active_transaction.as_str),
  ("previous-transaction".toList, optional_transaction_text record.previous_transaction),
  ("pending-transaction".toList, optional_transaction_text record.pending_transaction)]

/-- `record_bytes`. -/
def record_bytes (record : ManagedRecordV1) : Str :=
  field_record record_header record_footer (record_fields record)

/-! ## The reader -/

/-- `field`. -/
def field (line : Str) (name : String) : ManagedResult Str :=
  match field_value name.toList line with
  | none => .error (input_error ("managed record field is invalid: " ++ name))
  | some value => .ok value

/-- `map_err` on a parsed field. -/
def parsed {α : Type} (message : String) : Option α → ManagedResult α
  | none => .error (input_error message)
  | some value => .ok value

def parse_sha256 (value : Str) : ManagedResult Sha256 :=
  parsed "expected 64 lowercase hexadecimal SHA-256 characters" (Sha256.parse value)

/-- `parse_transaction`. -/
def parse_transaction (value : Str) : ManagedResult ExecutionId :=
  parsed "expected a lowercase RFC 4122 UUID version 4" (ExecutionId.parse value)

/-- `parse_optional_transaction`. -/
def parse_optional_transaction (value : Str) : ManagedResult (Option ExecutionId) :=
  if value = ['-'] then .ok none else (parse_transaction value).map some

/-- `parse_record`. -/
def parse_record (text : Str) : ManagedResult ManagedRecordV1 := do
  let ls := lines text
  let _ ← ensure (ls.length = 10 ∧ ls[0]? = some record_header ∧ ls[9]? = some record_footer)
    (input_error "managed record shape is invalid")
  let project_id ← parse_sha256 (← field (ls.getD 1 []) "project-id")
  let project_root ← field (ls.getD 2 []) "project-root"
  let target ← field (ls.getD 3 []) "target"
  let management_input_sha256 ← parse_sha256 (← field (ls.getD 4 []) "management-input-sha256")
  let baseline_transaction ← parse_transaction (← field (ls.getD 5 []) "baseline-transaction")
  let active_transaction ← parse_transaction (← field (ls.getD 6 []) "active-transaction")
  let previous_transaction ←
    parse_optional_transaction (← field (ls.getD 7 []) "previous-transaction")
  let pending_transaction ← parse_optional_transaction (← field (ls.getD 8 []) "pending-transaction")
  let ⟨target_valid⟩ ← validate_target target
  let record : ManagedRecordV1 := ⟨⟨project_id⟩, project_root, target, management_input_sha256,
    baseline_transaction, active_transaction, previous_transaction, pending_transaction,
    target_valid⟩
  let _ ← ensure (record_bytes record = text) (input_error "managed record is not canonical")
  return record

/-- What `stable_read` returns of the record when nothing changes it meanwhile. -/
def stable_read (text : Str) : ManagedResult Str :=
  if byte_len text ≤ MAX_RECORD_BYTES then .ok text
  else .error (input_error "managed record is not a bounded regular file")

/-- `parse_record(&stable_read(..)?)`. -/
def read_text (text : Str) : ManagedResult ManagedRecordV1 := do
  let text ← stable_read text
  parse_record text

/-! ## What is read is what was written -/

theorem field_clean {name : String} {value : Str} (h : clean_value value = true) :
    field (field_line name.toList value) name = .ok value := by
  unfold field
  rw [field_value_field_line, if_pos h]

theorem field_eq_ok {line value : Str} {name : String} (h : field line name = .ok value) :
    clean_value value = true := by
  unfold field at h
  split at h
  · cases h
  · next hvalue =>
    rw [← Except.ok.inj h]
    exact (field_value_eq_some hvalue).2

theorem stable_read_eq_ok {text value : Str} :
    stable_read text = .ok value ↔ value = text ∧ byte_len text ≤ MAX_RECORD_BYTES := by
  unfold stable_read
  by_cases h : byte_len text ≤ MAX_RECORD_BYTES
  · rw [if_pos h]
    exact ⟨fun heq => ⟨(Except.ok.inj heq).symm, h⟩, fun heq => by rw [heq.1]⟩
  · rw [if_neg h]
    exact ⟨fun heq => (by cases heq), fun heq => absurd heq.2 h⟩

theorem optional_transaction_clean (transaction : Option ExecutionId) :
    clean_value (optional_transaction_text transaction) = true := by
  cases transaction with
  | none => decide
  | some t => exact execution_id_clean t

@[simp] theorem parse_optional_transaction_text (transaction : Option ExecutionId) :
    parse_optional_transaction (optional_transaction_text transaction) = .ok transaction := by
  cases transaction with
  | none => rfl
  | some t =>
    have hne : t.as_str ≠ ['-'] := by
      intro heq
      have hlength := t.length
      rw [heq] at hlength
      cases hlength
    show (if t.as_str = ['-'] then .ok none else (parse_transaction t.as_str).map some) = _
    unfold parse_transaction
    rw [if_neg hne, ExecutionId.parse_as_str]
    rfl

theorem optional_transaction_text_injective : Function.Injective optional_transaction_text := by
  intro a b h
  have hparse := parse_optional_transaction_text a
  rw [h, parse_optional_transaction_text] at hparse
  exact (Except.ok.inj hparse).symm

theorem record_frame (record : ManagedRecordV1) :
    PlainFrame record_header record_footer ((record_fields record).map Prod.fst) := by
  have hnames : ∀ name ∈ ["project-id".toList, "project-root".toList, "target".toList,
      "management-input-sha256".toList, "baseline-transaction".toList, "active-transaction".toList,
      "previous-transaction".toList, "pending-transaction".toList],
      '\n' ∉ name ∧ '\r' ∉ name := by decide
  exact ⟨by decide, by decide, hnames⟩

/-- The values that a writer takes as they are. -/
def clean_record (record : ManagedRecordV1) : Prop :=
  clean_value record.project_root = true ∧ clean_value record.target = true

theorem record_fields_clean {record : ManagedRecordV1} (h : clean_record record) :
    ∀ field ∈ record_fields record, clean_value field.2 = true := by
  intro field hfield
  unfold record_fields at hfield
  simp only [List.mem_cons, List.not_mem_nil, or_false] at hfield
  rcases hfield with rfl | rfl | rfl | rfl | rfl | rfl | rfl | rfl
  · exact project_id_clean _
  · exact h.1
  · exact h.2
  · exact sha256_clean _
  · exact execution_id_clean _
  · exact execution_id_clean _
  · exact optional_transaction_clean _
  · exact optional_transaction_clean _

/-- A text that is read is the text of the record that it is read as. -/
theorem parse_record_eq_ok {text : Str} {record : ManagedRecordV1}
    (h : parse_record text = .ok record) : text = record_bytes record ∧ clean_record record := by
  unfold parse_record at h
  dsimp only at h
  obtain ⟨_, -, h⟩ := bind_eq_ok.mp h
  obtain ⟨_, -, h⟩ := bind_eq_ok.mp h
  obtain ⟨_, -, h⟩ := bind_eq_ok.mp h
  obtain ⟨project_root, hroot, h⟩ := bind_eq_ok.mp h
  obtain ⟨target, htarget, h⟩ := bind_eq_ok.mp h
  obtain ⟨_, -, h⟩ := bind_eq_ok.mp h
  obtain ⟨_, -, h⟩ := bind_eq_ok.mp h
  obtain ⟨_, -, h⟩ := bind_eq_ok.mp h
  obtain ⟨_, -, h⟩ := bind_eq_ok.mp h
  obtain ⟨_, -, h⟩ := bind_eq_ok.mp h
  obtain ⟨_, -, h⟩ := bind_eq_ok.mp h
  obtain ⟨_, -, h⟩ := bind_eq_ok.mp h
  obtain ⟨_, -, h⟩ := bind_eq_ok.mp h
  obtain ⟨_, -, h⟩ := bind_eq_ok.mp h
  obtain ⟨_, -, h⟩ := bind_eq_ok.mp h
  obtain ⟨⟨_⟩, -, h⟩ := bind_eq_ok.mp h
  obtain ⟨⟨hcanonical⟩, -, h⟩ := bind_eq_ok.mp h
  rw [← Except.ok.inj h]
  exact ⟨hcanonical.symm, field_eq_ok hroot, field_eq_ok htarget⟩

theorem record_lines {record : ManagedRecordV1} (h : clean_record record) :
    lines (record_bytes record) =
      field_record_lines record_header record_footer (record_fields record) :=
  lines_field_record (record_frame record) fun field hfield =>
    clean_value_token (record_fields_clean h field hfield)

/-- **A clean record is read back.** -/
theorem parse_record_bytes {record : ManagedRecordV1} (h : clean_record record) :
    parse_record (record_bytes record) = .ok record := by
  have hshape : (10 = 10 ∧ some record_header = some record_header ∧
      some record_footer = some record_footer) := ⟨rfl, rfl, rfl⟩
  have hsha : ∀ d : Sha256, parse_sha256 d.to_string = .ok d := by
    intro d
    unfold parse_sha256
    rw [Sha256.parse_to_string]
    rfl
  have hid : ∀ t : ExecutionId, parse_transaction t.as_str = .ok t := by
    intro t
    unfold parse_transaction
    rw [ExecutionId.parse_as_str]
    rfl
  unfold parse_record
  dsimp only
  rw [record_lines h]
  unfold field_record_lines record_fields
  simp only [List.map_cons, List.map_nil, List.cons_append, List.nil_append, List.length_cons,
    List.getElem?_cons_zero, List.getElem?_cons_succ, List.getD_cons_succ,
    List.getD_cons_zero, ProjectId.to_string, field_clean (sha256_clean _), field_clean h.1,
    field_clean h.2, field_clean (execution_id_clean _), field_clean (optional_transaction_clean _),
    hsha, hid, parse_optional_transaction_text, validate_target, ensure_ok record.target_valid,
    bind, Except.bind, pure, Except.pure]
  exact congrArg (fun x => Except.bind x fun _ => Except.ok record)
    (ensure_ok (rfl : record_bytes record = record_bytes record) _)

/-- The text determines the record, even when only one of the two can be read. -/
theorem record_bytes_injective {a b : ManagedRecordV1} (ha : clean_record a)
    (h : record_bytes a = record_bytes b) : a = b := by
  have hplain : ∀ field ∈ record_fields a, '\n' ∉ field.2 := fun field hfield =>
    (clean_value_token (record_fields_clean ha field hfield)).not_mem (by decide)
  have hfields : record_fields a = record_fields b :=
    field_record_injective rfl (record_frame a) hplain h
  unfold record_fields at hfields
  simp only [List.cons.injEq, Prod.mk.injEq, true_and, and_true] at hfields
  obtain ⟨hid, hroot, htarget, hinput, hbaseline, hactive, hprevious, hpending⟩ := hfields
  obtain ⟨⟨ida⟩, _, _, _, _, _, _, _, _⟩ := a
  obtain ⟨⟨idb⟩, _, _, _, _, _, _, _, _⟩ := b
  rw [ManagedRecordV1.mk.injEq]
  exact ⟨congrArg ProjectId.mk (Sha256.to_string_injective hid), hroot, htarget,
    Sha256.to_string_injective hinput, ExecutionId.ext hbaseline, ExecutionId.ext hactive,
    optional_transaction_text_injective hprevious, optional_transaction_text_injective hpending⟩

/-- What the registry's file is read as. -/
theorem read_text_eq_ok {text : Str} {record : ManagedRecordV1} (h : read_text text = .ok record) :
    text = record_bytes record ∧ clean_record record ∧ byte_len text ≤ MAX_RECORD_BYTES := by
  unfold read_text at h
  obtain ⟨value, hvalue, hparse⟩ := bind_eq_ok.mp h
  obtain ⟨rfl, hsmall⟩ := stable_read_eq_ok.mp hvalue
  obtain ⟨htext, hclean⟩ := parse_record_eq_ok hparse
  exact ⟨htext, hclean, hsmall⟩

theorem read_text_bytes {record : ManagedRecordV1} (hclean : clean_record record)
    (hsmall : byte_len (record_bytes record) ≤ MAX_RECORD_BYTES) :
    read_text (record_bytes record) = .ok record := by
  unfold read_text
  rw [stable_read_eq_ok.mpr ⟨rfl, hsmall⟩]
  exact parse_record_bytes hclean

/-- A record with usual paths stays within the limit of its reader. -/
theorem record_bytes_small {record : ManagedRecordV1} (hroot : byte_len record.project_root ≤ 4096)
    (htarget : byte_len record.target ≤ 4096) : byte_len (record_bytes record) ≤ MAX_RECORD_BYTES := by
  have hid : ∀ t : ExecutionId, byte_len t.as_str ≤ 4096 := fun t =>
    (execution_id_bytes t).trans (by decide)
  have hdigest : ∀ d : Sha256, byte_len d.to_string ≤ 4096 := fun d =>
    (sha256_bytes d).trans (by decide)
  have hoptional : ∀ t : Option ExecutionId, byte_len (optional_transaction_text t) ≤ 4096 := by
    intro t
    cases t with
    | none => decide
    | some t => exact hid t
  have hfield : ∀ field ∈ record_fields record, byte_len field.1 ≤ 100 ∧ byte_len field.2 ≤ 4096 := by
    intro field hfield
    unfold record_fields at hfield
    simp only [List.mem_cons, List.not_mem_nil, or_false] at hfield
    rcases hfield with rfl | rfl | rfl | rfl | rfl | rfl | rfl | rfl
    · exact ⟨(by decide : byte_len "project-id".toList ≤ 100), hdigest _⟩
    · exact ⟨(by decide : byte_len "project-root".toList ≤ 100), hroot⟩
    · exact ⟨(by decide : byte_len "target".toList ≤ 100), htarget⟩
    · exact ⟨(by decide : byte_len "management-input-sha256".toList ≤ 100), hdigest _⟩
    · exact ⟨(by decide : byte_len "baseline-transaction".toList ≤ 100), hid _⟩
    · exact ⟨(by decide : byte_len "active-transaction".toList ≤ 100), hid _⟩
    · exact ⟨(by decide : byte_len "previous-transaction".toList ≤ 100), hoptional _⟩
    · exact ⟨(by decide : byte_len "pending-transaction".toList ≤ 100), hoptional _⟩
  unfold record_bytes field_record
  refine (byte_len_unlines_le (b := 5000) ?_).trans (by decide : 10 * 5000 ≤ 64 * 1024)
  intro l hl
  unfold field_record_lines at hl
  simp only [List.mem_cons, List.mem_append, List.mem_map, List.not_mem_nil, or_false] at hl
  rcases hl with (rfl | ⟨field, hmem, rfl⟩) | rfl
  · decide
  · obtain ⟨hname, hvalue⟩ := hfield field hmem
    rw [byte_len_field_line]
    omega
  · decide

end LeanBun.Managed
