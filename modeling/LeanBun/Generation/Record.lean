/-
The records of the generation manager and their readers.

Four files: the project lock, which is only ever compared; the record of a
transaction; the active record; and the retained references. Each is written in
one canonical form, and a reader refuses every other text. The active record
holds a path: it is read back exactly when the path has no control character.
-/
import LeanBun.Generation.Model
import LeanBun.Lib.Check
import LeanBun.Lib.Sorted

set_option autoImplicit false

namespace LeanBun.Generation

open LeanBun.Lib LeanBun.Core

def MAX_RECORD_BYTES : ℕ := 2 * 1024 * 1024

/-- What `stable_read` returns of a file that nothing changes meanwhile. -/
def stable_read (text : Str) : GenerationResult Str :=
  if byte_len text ≤ MAX_RECORD_BYTES then .ok text
  else .error (drift "state record is not a bounded regular file")

/-! ## The records -/

/-- `TransactionRecord`. -/
structure TransactionRecord where
  transaction : ExecutionId
  project : ProjectId
  generation : Sha256
  state : LeanGenerationStateV1
deriving DecidableEq

/-- `ActiveRecord`. -/
structure ActiveRecord where
  transaction : ExecutionId
  generation : Sha256
  path : PathBuf
deriving DecidableEq

/-- A reference of the retained record: generation and store object. -/
abbrev Reference := Sha256 × Sha256

/-- `Ord` on references. -/
def reference_key (reference : Reference) : Lex (List ℕ × List ℕ) :=
  toLex (reference.1.key, reference.2.key)

/-- `lock_bytes`. -/
def lock_bytes (generation : LeanBunGenerationV1) : Str :=
  field_record "leanbun-generation-lock-v1\t1".toList "end-lock".toList
    [("transaction".toList, generation.transaction_id.as_str),
    ("generation".toList, generation.identity.to_string)]

def transaction_header : Str := "leanbun-generation-transaction-v1\t1".toList
def transaction_footer : Str := "end-transaction".toList

/-- `transaction_bytes`. -/
def transaction_bytes (record : TransactionRecord) : Str :=
  field_record transaction_header transaction_footer
    [("transaction".toList, record.transaction.as_str),
    ("project-id".toList, record.project.to_string),
    ("generation".toList, record.generation.to_string),
    ("state".toList, record.state.token)]

def active_header : Str := "leanbun-active-generation-v1\t1".toList
def active_footer : Str := "end-active".toList

/-- The fields of an active record. -/
def active_fields (record : ActiveRecord) : List (Str × Str) :=
  [("transaction".toList, record.transaction.as_str),
  ("generation".toList, record.generation.to_string),
  ("path".toList, record.path)]

/-- `active_bytes`. -/
def active_bytes (record : ActiveRecord) : Str :=
  field_record active_header active_footer (active_fields record)

def retained_header : Str := "leanbun-retained-generation-v1\t1".toList
def retained_footer : Str := "end-retained".toList

/-- The line of one reference. -/
def reference_line (reference : Reference) : Str :=
  tab_line ["reference".toList, reference.1.to_string, reference.2.to_string]

/-- `retained_bytes`. -/
def retained_bytes (pairs : List Reference) : Str :=
  unlines ([retained_header, field_line "reference-count".toList (decimal pairs.length)] ++
    pairs.map reference_line ++ [retained_footer])

/-! ## The readers -/

/-- `field_value` with its error. -/
def read_field (name : String) (line : Str) : GenerationResult Str :=
  match field_value name.toList line with
  | none => .error (malformed ("record field " ++ name ++ " is invalid"))
  | some value => .ok value

/-- `map_err` on a reader of a field. -/
def parsed {α : Type} (message : String) : Option α → GenerationResult α
  | none => .error (malformed message)
  | some value => .ok value

/-- `parse_transaction`. -/
def parse_transaction (text : Str) : GenerationResult TransactionRecord := do
  let ls := lines text
  let _ ← ensure (ls.length = 6 ∧ ls[0]? = some transaction_header ∧ ls[5]? = some transaction_footer)
    (malformed "transaction record shape is invalid")
  let transaction ← parsed "transaction id is invalid"
    (ExecutionId.parse (← read_field "transaction" (ls.getD 1 [])))
  let project ← parsed "project id is invalid"
    (ProjectId.parse (← read_field "project-id" (ls.getD 2 [])))
  let generation ← parsed "generation digest is invalid"
    (Sha256.parse (← read_field "generation" (ls.getD 3 [])))
  let state ← LeanGenerationStateV1.parse (← read_field "state" (ls.getD 4 []))
  let record : TransactionRecord := ⟨transaction, project, generation, state⟩
  let _ ← ensure (transaction_bytes record = text)
    (malformed "transaction record is not canonical")
  return record

/-- `parse_active`. -/
def parse_active (text : Str) : GenerationResult ActiveRecord := do
  let ls := lines text
  let _ ← ensure (ls.length = 5 ∧ ls[0]? = some active_header ∧ ls[4]? = some active_footer)
    (malformed "active record shape is invalid")
  let transaction ← parsed "active transaction id is invalid"
    (ExecutionId.parse (← read_field "transaction" (ls.getD 1 [])))
  let generation ← parsed "active generation digest is invalid"
    (Sha256.parse (← read_field "generation" (ls.getD 2 [])))
  let path ← read_field "path" (ls.getD 3 [])
  let record : ActiveRecord := ⟨transaction, generation, path⟩
  let _ ← ensure (active_bytes record = text) (malformed "active record is not canonical")
  return record

/-- `BTreeSet::insert` on a sorted list. -/
def insert_reference (pairs : List Reference) (reference : Reference) : List Reference :=
  if reference ∈ pairs then pairs else sort_by_key reference_key (pairs ++ [reference])

/-- The body of the loop of `parse_retained`. -/
def parse_reference (pairs : List Reference) (line : Str) : GenerationResult (List Reference) := do
  let fields := split '\t' line
  let _ ← ensure (fields.length = 3 ∧ fields[0]? = some "reference".toList)
    (malformed "retained reference is invalid")
  let generation ← parsed "retained generation is invalid" (Sha256.parse (fields.getD 1 []))
  let object ← parsed "retained object is invalid" (Sha256.parse (fields.getD 2 []))
  let _ ← ensure ((generation, object) ∉ pairs) (malformed "retained reference is duplicated")
  return insert_reference pairs (generation, object)

/-- `parse_retained`. -/
def parse_retained (text : Str) : GenerationResult (List Reference) := do
  let ls := lines text
  let _ ← ensure (3 ≤ ls.length ∧ ls[0]? = some retained_header)
    (malformed "retained record shape is invalid")
  let count ← parsed "retained reference count is invalid"
    (usize_from_str (← read_field "reference-count" (ls.getD 1 [])))
  let _ ← ensure (ls.length = count + 3 ∧ ls.getLast? = some retained_footer)
    (malformed "retained reference count differs from body")
  let pairs ← ((ls.drop 2).take count).foldlM parse_reference []
  let _ ← ensure (retained_bytes pairs = text) (malformed "retained record is not canonical")
  return pairs

/-! ## Values without control characters -/

theorem is_lower_hex_not_control {c : Char} (h : is_lower_hex c = true) : is_control c = false := by
  have hrange : 0x30 ≤ c.toNat ∧ c.toNat ≤ 0x66 := by
    unfold is_lower_hex at h
    have hor := of_decide_eq_true h
    simp only [Char.le_def, UInt32.le_iff_toNat_le] at hor
    have h0 : ('0' : Char).val.toNat = 0x30 := rfl
    have h9 : ('9' : Char).val.toNat = 0x39 := rfl
    have ha : ('a' : Char).val.toNat = 0x61 := rfl
    have hf : ('f' : Char).val.toNat = 0x66 := rfl
    rw [h0, h9, ha, hf] at hor
    unfold Char.toNat
    omega
  unfold is_control
  rw [Bool.or_eq_false_iff, decide_eq_false_iff_not, decide_eq_false_iff_not]
  omega

theorem execution_id_clean (id : ExecutionId) : clean_value id.as_str = true := by
  refine clean_value_of ?_ ?_
  · intro hnil
    have hlen := id.length
    rw [hnil] at hlen
    cases hlen
  · intro c hc
    rcases id.chars c hc with rfl | hhex
    · decide
    · exact is_lower_hex_not_control hhex

theorem sha256_clean (d : Sha256) : clean_value d.to_string = true := by
  refine clean_value_of ?_ ?_
  · intro hnil
    have hlen := d.to_string_length
    rw [hnil] at hlen
    cases hlen
  · intro c hc
    exact is_lower_hex_not_control (List.all_eq_true.mp (hex_all_lower d.bytes) c hc)

theorem project_id_clean (id : ProjectId) : clean_value id.to_string = true := sha256_clean id.digest

theorem token_clean (state : LeanGenerationStateV1) : clean_value state.token = true := by
  cases state <;> decide

theorem decimal_clean (n : ℕ) : clean_value (decimal n) = true := by
  refine clean_value_of (decimal_ne_nil n) fun c hc => is_lower_hex_not_control ?_
  have hdigit := List.all_eq_true.mp (decimal_digits n) c hc
  unfold is_digit at hdigit
  unfold is_lower_hex
  exact decide_eq_true (Or.inl (of_decide_eq_true hdigit))

theorem read_field_clean {name : String} {value : Str} (h : clean_value value = true) :
    read_field name (field_line name.toList value) = .ok value := by
  unfold read_field
  rw [field_value_field_line, if_pos h]

theorem read_field_eq_ok {name : String} {line value : Str} (h : read_field name line = .ok value) :
    line = field_line name.toList value ∧ clean_value value = true := by
  unfold read_field at h
  cases hvalue : field_value name.toList line with
  | none =>
    rw [hvalue] at h
    cases h
  | some v =>
    rw [hvalue] at h
    cases h
    exact field_value_eq_some hvalue

/-! ## The size of the records -/

theorem byte_len_hex_text {s : Str} {n : ℕ} (hlen : s.length = n) : byte_len s ≤ 4 * n := by
  rw [← hlen]
  exact byte_len_le s

theorem execution_id_bytes (id : ExecutionId) : byte_len id.as_str ≤ 144 := byte_len_hex_text id.length

theorem sha256_bytes (d : Sha256) : byte_len d.to_string ≤ 256 := byte_len_hex_text d.to_string_length

theorem token_bytes (state : LeanGenerationStateV1) : byte_len state.token ≤ 16 := by
  cases state <;> decide

/-- A lock is small enough to be read. -/
theorem lock_bytes_small (generation : LeanBunGenerationV1) :
    byte_len (lock_bytes generation) ≤ MAX_RECORD_BYTES := by
  have htransaction := execution_id_bytes generation.transaction_id
  have hgeneration := sha256_bytes generation.identity
  have hheader : byte_len "leanbun-generation-lock-v1\t1".toList +
      byte_len "end-lock".toList + byte_len "transaction".toList +
      byte_len "generation".toList ≤ 200 := by decide
  unfold lock_bytes MAX_RECORD_BYTES
  rw [byte_len_field_record]
  simp only [List.map_cons, List.map_nil, List.sum_cons, List.sum_nil]
  omega

theorem transaction_bytes_small (record : TransactionRecord) :
    byte_len (transaction_bytes record) ≤ MAX_RECORD_BYTES := by
  have htransaction := execution_id_bytes record.transaction
  have hproject := sha256_bytes record.project.digest
  have hgeneration := sha256_bytes record.generation
  have hstate := token_bytes record.state
  have hheader : byte_len transaction_header + byte_len transaction_footer +
      byte_len "transaction".toList + byte_len "project-id".toList + byte_len "generation".toList +
      byte_len "state".toList ≤ 200 := by decide
  unfold transaction_bytes MAX_RECORD_BYTES
  rw [byte_len_field_record]
  simp only [List.map_cons, List.map_nil, List.sum_cons, List.sum_nil, ProjectId.to_string]
  omega

/-- The path of a valid generation leaves room in the active record. -/
theorem active_bytes_small {record : ActiveRecord} (hpath : byte_len record.path ≤ MAX_PATH_BYTES) :
    byte_len (active_bytes record) ≤ MAX_RECORD_BYTES := by
  have htransaction := execution_id_bytes record.transaction
  have hgeneration := sha256_bytes record.generation
  have hheader : byte_len active_header + byte_len active_footer +
      byte_len "transaction".toList + byte_len "generation".toList + byte_len "path".toList ≤ 200 := by
    decide
  unfold MAX_PATH_BYTES at hpath
  unfold active_bytes active_fields MAX_RECORD_BYTES
  rw [byte_len_field_record]
  simp only [List.map_cons, List.map_nil, List.sum_cons, List.sum_nil]
  omega

/-! ## The project lock -/

theorem lock_frame : PlainFrame "leanbun-generation-lock-v1\t1".toList "end-lock".toList
    ["transaction".toList, "generation".toList] :=
  ⟨by decide, by decide, by decide⟩

/-- The lock names its owner's transaction and identity. -/
theorem lock_bytes_injective {a b : LeanBunGenerationV1} (h : lock_bytes a = lock_bytes b) :
    a.transaction_id = b.transaction_id ∧ a.identity = b.identity := by
  have hplain : ∀ field ∈ [("transaction".toList, a.transaction_id.as_str),
      ("generation".toList, a.identity.to_string)], '\n' ∉ field.2 := by
    intro field hfield
    simp only [List.mem_cons, List.not_mem_nil, or_false] at hfield
    rcases hfield with rfl | rfl
    · exact (clean_value_token (execution_id_clean a.transaction_id)).not_mem (by decide)
    · exact (clean_value_token (sha256_clean a.identity)).not_mem (by decide)
  have hfields : [("transaction".toList, a.transaction_id.as_str),
      ("generation".toList, a.identity.to_string)] =
      [("transaction".toList, b.transaction_id.as_str),
      ("generation".toList, b.identity.to_string)] :=
    field_record_injective rfl lock_frame hplain h
  simp only [List.cons.injEq, Prod.mk.injEq, true_and, and_true] at hfields
  exact ⟨ExecutionId.ext hfields.1, Sha256.to_string_injective hfields.2⟩

/-! ## Transaction records -/

theorem transaction_frame : PlainFrame transaction_header transaction_footer
    ["transaction".toList, "project-id".toList, "generation".toList, "state".toList] :=
  ⟨by decide, by decide, by decide⟩

theorem transaction_lines (record : TransactionRecord) : lines (transaction_bytes record) =
    [transaction_header, field_line "transaction".toList record.transaction.as_str,
    field_line "project-id".toList record.project.to_string,
    field_line "generation".toList record.generation.to_string,
    field_line "state".toList record.state.token, transaction_footer] := by
  refine lines_field_record transaction_frame ?_
  intro field hfield
  simp only [List.mem_cons, List.not_mem_nil, or_false] at hfield
  rcases hfield with rfl | rfl | rfl | rfl
  · exact clean_value_token (execution_id_clean _)
  · exact clean_value_token (project_id_clean _)
  · exact clean_value_token (sha256_clean _)
  · exact clean_value_token (token_clean _)

/-- **Transaction records are read back.** -/
@[simp] theorem parse_transaction_bytes (record : TransactionRecord) :
    parse_transaction (transaction_bytes record) = .ok record := by
  have hshape : (6 = 6 ∧ some transaction_header = some transaction_header ∧
      some transaction_footer = some transaction_footer) := ⟨rfl, rfl, rfl⟩
  unfold parse_transaction
  dsimp only
  rw [transaction_lines]
  simp only [List.length_cons, List.length_nil, List.getElem?_cons_zero, List.getElem?_cons_succ,
    List.getD_cons_succ, List.getD_cons_zero, read_field_clean (execution_id_clean _),
    read_field_clean (project_id_clean _), read_field_clean (sha256_clean _),
    read_field_clean (token_clean _), ExecutionId.parse_as_str, ProjectId.parse_to_string,
    Sha256.parse_to_string, LeanGenerationStateV1.parse_token, parsed, ensure_ok hshape,
    ensure_ok (rfl : transaction_bytes record = transaction_bytes record), bind, Except.bind, pure,
    Except.pure, Nat.reduceAdd]

/-- The text determines the record. -/
theorem transaction_bytes_injective : Function.Injective transaction_bytes := by
  intro a b h
  have hparse := parse_transaction_bytes a
  rw [h, parse_transaction_bytes] at hparse
  exact (Except.ok.inj hparse).symm

/-- Only the canonical text is read. -/
theorem parse_transaction_canonical {text : Str} {record : TransactionRecord}
    (h : parse_transaction text = .ok record) : transaction_bytes record = text := by
  unfold parse_transaction at h
  dsimp only at h
  obtain ⟨_, -, h⟩ := bind_eq_ok.mp h
  obtain ⟨_, -, h⟩ := bind_eq_ok.mp h
  obtain ⟨transaction, -, h⟩ := bind_eq_ok.mp h
  obtain ⟨_, -, h⟩ := bind_eq_ok.mp h
  obtain ⟨project, -, h⟩ := bind_eq_ok.mp h
  obtain ⟨_, -, h⟩ := bind_eq_ok.mp h
  obtain ⟨generation, -, h⟩ := bind_eq_ok.mp h
  obtain ⟨_, -, h⟩ := bind_eq_ok.mp h
  obtain ⟨state, -, h⟩ := bind_eq_ok.mp h
  obtain ⟨⟨hcanonical⟩, -, h⟩ := bind_eq_ok.mp h
  rw [← Except.ok.inj h]
  exact hcanonical

/-! ## Active records -/

theorem active_frame : PlainFrame active_header active_footer
    ["transaction".toList, "generation".toList, "path".toList] :=
  ⟨by decide, by decide, by decide⟩

theorem active_lines {record : ActiveRecord} (hpath : clean_value record.path = true) :
    lines (active_bytes record) =
      [active_header, field_line "transaction".toList record.transaction.as_str,
      field_line "generation".toList record.generation.to_string,
      field_line "path".toList record.path, active_footer] := by
  refine lines_field_record active_frame ?_
  intro field hfield
  simp only [active_fields, List.mem_cons, List.not_mem_nil, or_false] at hfield
  rcases hfield with rfl | rfl | rfl
  · exact clean_value_token (execution_id_clean _)
  · exact clean_value_token (sha256_clean _)
  · exact clean_value_token hpath

/-- An active record whose path has no control character is read back. -/
theorem parse_active_clean {record : ActiveRecord} (hpath : clean_value record.path = true) :
    parse_active (active_bytes record) = .ok record := by
  have hshape : (5 = 5 ∧ some active_header = some active_header ∧
      some active_footer = some active_footer) := ⟨rfl, rfl, rfl⟩
  unfold parse_active
  dsimp only
  rw [active_lines hpath]
  simp only [List.length_cons, List.length_nil, List.getElem?_cons_zero, List.getElem?_cons_succ,
    List.getD_cons_succ, List.getD_cons_zero, read_field_clean (execution_id_clean _),
    read_field_clean (sha256_clean _), read_field_clean hpath, ExecutionId.parse_as_str,
    Sha256.parse_to_string, parsed, ensure_ok hshape,
    ensure_ok (rfl : active_bytes record = active_bytes record), bind, Except.bind, pure,
    Except.pure, Nat.reduceAdd]

/-- A text that is read is the text of the record that it is read as. -/
theorem parse_active_eq_ok {text : Str} {record : ActiveRecord} (h : parse_active text = .ok record) :
    active_bytes record = text ∧ clean_value record.path = true := by
  unfold parse_active at h
  dsimp only at h
  obtain ⟨_, -, h⟩ := bind_eq_ok.mp h
  obtain ⟨_, -, h⟩ := bind_eq_ok.mp h
  obtain ⟨transaction, -, h⟩ := bind_eq_ok.mp h
  obtain ⟨_, -, h⟩ := bind_eq_ok.mp h
  obtain ⟨generation, -, h⟩ := bind_eq_ok.mp h
  obtain ⟨path, hpath, h⟩ := bind_eq_ok.mp h
  obtain ⟨⟨hcanonical⟩, -, h⟩ := bind_eq_ok.mp h
  rw [← Except.ok.inj h]
  exact ⟨hcanonical, (read_field_eq_ok hpath).2⟩

theorem active_bytes_injective {a b : ActiveRecord} (ha : clean_value a.path = true)
    (h : active_bytes a = active_bytes b) : a = b := by
  have hplain : ∀ field ∈ active_fields a, '\n' ∉ field.2 := by
    intro field hfield
    simp only [active_fields, List.mem_cons, List.not_mem_nil, or_false] at hfield
    rcases hfield with rfl | rfl | rfl
    · exact (clean_value_token (execution_id_clean a.transaction)).not_mem (by decide)
    · exact (clean_value_token (sha256_clean a.generation)).not_mem (by decide)
    · exact (clean_value_token ha).not_mem (by decide)
  have hfields : active_fields a = active_fields b :=
    field_record_injective rfl active_frame hplain h
  unfold active_fields at hfields
  simp only [List.cons.injEq, Prod.mk.injEq, true_and, and_true] at hfields
  obtain ⟨htransaction, hgeneration, hpath⟩ := hfields
  obtain ⟨_, _, _⟩ := a
  obtain ⟨_, _, _⟩ := b
  rw [ActiveRecord.mk.injEq]
  exact ⟨ExecutionId.ext htransaction, Sha256.to_string_injective hgeneration, hpath⟩

/-- **Active records are read back exactly when their path is clean.** -/
theorem parse_active_bytes_iff {a b : ActiveRecord} :
    parse_active (active_bytes a) = .ok b ↔ b = a ∧ clean_value a.path = true := by
  constructor
  · intro h
    obtain ⟨htext, hclean⟩ := parse_active_eq_ok h
    have hsame := active_bytes_injective hclean htext
    rw [← hsame]
    exact ⟨rfl, hclean⟩
  · rintro ⟨rfl, hclean⟩
    exact parse_active_clean hclean

/-! ## Retained references -/

theorem reference_line_fields (reference : Reference) : split '\t' (reference_line reference) =
    ["reference".toList, reference.1.to_string, reference.2.to_string] := by
  refine split_tab_line _ (by simp) ?_
  intro field hfield
  simp only [List.mem_cons, List.not_mem_nil, or_false] at hfield
  rcases hfield with rfl | rfl | rfl
  · unfold IsToken
    decide
  · exact reference.1.to_string_token
  · exact reference.2.to_string_token

theorem reference_line_plain (reference : Reference) :
    '\n' ∉ reference_line reference ∧ '\r' ∉ reference_line reference := by
  have htoken : ∀ field ∈ ["reference".toList, reference.1.to_string, reference.2.to_string],
      IsToken field := by
    intro field hfield
    simp only [List.mem_cons, List.not_mem_nil, or_false] at hfield
    rcases hfield with rfl | rfl | rfl
    · unfold IsToken
      decide
    · exact reference.1.to_string_token
    · exact reference.2.to_string_token
  exact ⟨tab_line_not_mem (by decide) _ fun f hf => (htoken f hf).not_mem (by decide),
    tab_line_not_mem (by decide) _ fun f hf => (htoken f hf).not_mem (by decide)⟩

theorem retained_lines (pairs : List Reference) : lines (retained_bytes pairs) =
    [retained_header, field_line "reference-count".toList (decimal pairs.length)] ++
      pairs.map reference_line ++ [retained_footer] := by
  refine lines_unlines _ fun l hl => ?_
  rcases List.mem_append.mp hl with hl | hl
  · rcases List.mem_append.mp hl with hl | hl
    · simp only [List.mem_cons, List.not_mem_nil, or_false] at hl
      rcases hl with rfl | rfl
      · decide
      · exact field_line_plain (by decide) (decimal_token _)
    · obtain ⟨reference, -, rfl⟩ := List.mem_map.mp hl
      exact reference_line_plain reference
  · rw [List.mem_singleton.mp hl]
    decide

theorem reference_key_injective : Function.Injective reference_key := by
  intro a b h
  have hpair : (a.1.key, a.2.key) = (b.1.key, b.2.key) := toLex.injective h
  exact Prod.ext (Sha256.key_injective (congrArg Prod.fst hpair))
    (Sha256.key_injective (congrArg Prod.snd hpair))

/-- Inserting keeps a set of references in order. -/
theorem insert_reference_sorted {pairs : List Reference} (reference : Reference)
    (h : StrictlySorted reference_key pairs) :
    StrictlySorted reference_key (insert_reference pairs reference) := by
  unfold insert_reference
  by_cases hmem : reference ∈ pairs
  · rw [if_pos hmem]
    exact h
  · rw [if_neg hmem]
    have hle := sort_by_key_sorted reference_key (pairs ++ [reference])
    have hperm := sort_by_key_perm reference_key (pairs ++ [reference])
    have hnodup : ((sort_by_key reference_key (pairs ++ [reference])).map reference_key).Nodup := by
      refine (hperm.map reference_key).nodup_iff.mpr ?_
      rw [List.map_append, List.nodup_append]
      refine ⟨h.nodup, List.nodup_singleton _, ?_⟩
      intro a ha b hb hab
      obtain ⟨p, hp, rfl⟩ := List.mem_map.mp ha
      rw [List.map_singleton, List.mem_singleton] at hb
      exact hmem (by rw [← reference_key_injective (hab.trans hb)]; exact hp)
    exact (hle.and (List.pairwise_map.mp hnodup)).imp fun hab => lt_of_le_of_ne hab.1 hab.2

theorem mem_insert_reference {pairs : List Reference} {reference x : Reference} :
    x ∈ insert_reference pairs reference ↔ x = reference ∨ x ∈ pairs := by
  unfold insert_reference
  by_cases hmem : reference ∈ pairs
  · rw [if_pos hmem]
    refine ⟨Or.inr, ?_⟩
    rintro (rfl | h)
    · exact hmem
    · exact h
  · rw [if_neg hmem, mem_sort_by_key, List.mem_append, List.mem_singleton, Or.comm]

/-- The loop of `parse_retained` collects the references of its lines. -/
theorem parse_references {pre pairs : List Reference}
    (h : StrictlySorted reference_key (pre ++ pairs)) :
    (pairs.map reference_line).foldlM parse_reference pre = .ok (pre ++ pairs) := by
  induction pairs generalizing pre with
  | nil =>
    rw [List.append_nil]
    rfl
  | cons reference pairs ih =>
    have hcut : pre ++ reference :: pairs = (pre ++ [reference]) ++ pairs := by simp
    have hsorted := h
    rw [hcut] at hsorted
    have hfront : StrictlySorted reference_key (pre ++ [reference]) :=
      (List.pairwise_append.mp hsorted).1
    have hnew : reference ∉ pre := by
      intro hmem
      have hlt := (List.pairwise_append.mp hfront).2.2 _ hmem _ (List.mem_singleton_self _)
      exact absurd hlt (lt_irrefl _)
    have hinsert : insert_reference pre reference = pre ++ [reference] := by
      unfold insert_reference
      rw [if_neg hnew]
      exact hfront.sort_eq
    have hshape : (3 = 3 ∧ some "reference".toList = some "reference".toList) := ⟨rfl, rfl⟩
    have hone : parse_reference pre (reference_line reference) = .ok (pre ++ [reference]) := by
      unfold parse_reference
      dsimp only
      rw [reference_line_fields]
      simp only [List.length_cons, List.length_nil, List.getElem?_cons_zero,
        List.getD_cons_succ, List.getD_cons_zero, Sha256.parse_to_string, parsed, ensure_ok hshape,
        ensure_ok hnew, hinsert, bind, Except.bind, pure, Except.pure, Nat.reduceAdd]
    rw [List.map_cons, List.foldlM_cons, hone]
    show (pairs.map reference_line).foldlM parse_reference (pre ++ [reference]) = _
    rw [ih hsorted, hcut]

/-- **Retained records are read back.** -/
theorem parse_retained_bytes {pairs : List Reference} (hsorted : StrictlySorted reference_key pairs)
    (hlength : pairs.length < 2 ^ 64) : parse_retained (retained_bytes pairs) = .ok pairs := by
  have hall := retained_lines pairs
  have hlen : (lines (retained_bytes pairs)).length = pairs.length + 3 := by
    rw [hall]
    simp only [List.length_append, List.length_cons, List.length_map, List.length_nil]
    omega
  have hshape : 3 ≤ (lines (retained_bytes pairs)).length ∧
      (lines (retained_bytes pairs))[0]? = some retained_header := by
    refine ⟨by omega, ?_⟩
    rw [hall]
    rfl
  have hcount : read_field "reference-count" ((lines (retained_bytes pairs)).getD 1 []) =
      .ok (decimal pairs.length) := by
    rw [hall]
    exact read_field_clean (decimal_clean _)
  have hbody : (lines (retained_bytes pairs)).length = pairs.length + 3 ∧
      (lines (retained_bytes pairs)).getLast? = some retained_footer := by
    refine ⟨hlen, ?_⟩
    rw [hall, List.getLast?_append]
    rfl
  have hmiddle : ((lines (retained_bytes pairs)).drop 2).take pairs.length =
      pairs.map reference_line := by
    rw [hall, List.append_assoc]
    show (pairs.map reference_line ++ [retained_footer]).take pairs.length = _
    rw [List.take_append_of_le_length (by rw [List.length_map]), List.take_of_length_le
      (by rw [List.length_map])]
  have hloop : (pairs.map reference_line).foldlM parse_reference [] = .ok pairs :=
    parse_references hsorted
  unfold parse_retained
  dsimp only
  simp only [ensure_ok hshape, hcount, usize_from_str_decimal hlength, parsed, ensure_ok hbody,
    hmiddle, hloop, ensure_ok (rfl : retained_bytes pairs = retained_bytes pairs), bind,
    Except.bind, pure, Except.pure]

/-- What the loop of `parse_retained` collects is in order. -/
theorem parse_retained_sorted {text : Str} {pairs : List Reference}
    (h : parse_retained text = .ok pairs) : StrictlySorted reference_key pairs := by
  unfold parse_retained at h
  dsimp only at h
  obtain ⟨_, -, h⟩ := bind_eq_ok.mp h
  obtain ⟨_, -, h⟩ := bind_eq_ok.mp h
  obtain ⟨count, -, h⟩ := bind_eq_ok.mp h
  obtain ⟨_, -, h⟩ := bind_eq_ok.mp h
  obtain ⟨collected, hloop, h⟩ := bind_eq_ok.mp h
  obtain ⟨_, -, h⟩ := bind_eq_ok.mp h
  rw [← Except.ok.inj h]
  refine foldlM_invariant (fun _ pairs => StrictlySorted reference_key pairs) ?_
    List.Pairwise.nil hloop
  intro _ line pre next _ hpre hone
  unfold parse_reference at hone
  dsimp only at hone
  obtain ⟨_, -, hone⟩ := bind_eq_ok.mp hone
  obtain ⟨generation, -, hone⟩ := bind_eq_ok.mp hone
  obtain ⟨object, -, hone⟩ := bind_eq_ok.mp hone
  obtain ⟨_, -, hone⟩ := bind_eq_ok.mp hone
  rw [← Except.ok.inj hone]
  exact insert_reference_sorted _ hpre

/-- Only the canonical text is read. -/
theorem parse_retained_canonical {text : Str} {pairs : List Reference}
    (h : parse_retained text = .ok pairs) : retained_bytes pairs = text := by
  unfold parse_retained at h
  dsimp only at h
  obtain ⟨_, -, h⟩ := bind_eq_ok.mp h
  obtain ⟨_, -, h⟩ := bind_eq_ok.mp h
  obtain ⟨count, -, h⟩ := bind_eq_ok.mp h
  obtain ⟨_, -, h⟩ := bind_eq_ok.mp h
  obtain ⟨collected, -, h⟩ := bind_eq_ok.mp h
  obtain ⟨⟨hsame⟩, -, h⟩ := bind_eq_ok.mp h
  rw [← Except.ok.inj h]
  exact hsame

/-- A record that is small enough to be read has few references. -/
theorem retained_bytes_length {pairs : List Reference}
    (h : byte_len (retained_bytes pairs) ≤ MAX_RECORD_BYTES) : pairs.length < 2 ^ 64 := by
  have hcount := count_unlines ([retained_header, field_line "reference-count".toList
    (decimal pairs.length)] ++ pairs.map reference_line ++ [retained_footer])
  have hle : (retained_bytes pairs).count '\n' ≤ byte_len (retained_bytes pairs) :=
    List.count_le_length.trans (length_le_byte_len _)
  unfold retained_bytes at hle h
  rw [hcount, List.length_append, List.length_append, List.length_map] at hle
  unfold MAX_RECORD_BYTES at h
  omega

end LeanBun.Generation
