/-
How long the documents of the execution store can be.

`readRecord` takes 64 KiB and `readLock` 32 KiB, while what writes a document does not look at
its length: a document that is too long is one that its writer cannot read back. `size` bounds
the text of a value by the lengths of its strings, so that for a document that its validator
accepts only the strings of free length are left.
-/
import LeanBun.Execution.Undisturbed
import Mathlib.Tactic.Linarith

set_option autoImplicit false

namespace LeanBun.Execution

open LeanBun.Lib LeanBun.Core

/-! ## The size of a value -/

mutual

/-- A bound on the text of a value at an indentation. -/
def JsValue.size (indent : ℕ) : JsValue → ℕ
  | .null => 4
  | .boolean _ => 5
  | .number value => byte_len (integer_text value)
  | .string value => 6 * value.length + 2
  | .object entries => indent + 3 + entries_size (indent + 2) entries

/-- A bound on the members of an object, each with its comma and its line. -/
def entries_size (indent : ℕ) : List (Str × JsValue) → ℕ
  | [] => 0
  | (key, value) :: entries =>
    byte_len key + indent + 6 + value.size indent + entries_size indent entries

end

theorem ascii_len {c : Char} (hc : c.toNat ≤ 127) (text : Str) :
    byte_len (c :: text) = byte_len text + 1 := by
  have hone : byte_len [c] = 1 := byte_len_ascii (by simpa using hc)
  rw [show c :: text = [c] ++ text from rfl, byte_len_append, hone, Nat.add_comm]

theorem unicode_escape_len (unit : ℕ) : byte_len (unicode_escape unit) = 6 := by
  have hhex : byte_len (hex [UInt8.ofNat (unit / 256), UInt8.ofNat unit]) = 4 := by
    have hlower := hex_all_lower [UInt8.ofNat (unit / 256), UInt8.ofNat unit]
    rw [byte_len_ascii, hex_length]
    · rfl
    · intro c hc
      have hdigits : ∀ c ∈ "0123456789abcdef".toList, c.toNat ≤ 127 := by decide
      exact hdigits c (lower_hex_mem (List.all_eq_true.mp hlower c hc))
  unfold unicode_escape
  rw [ascii_len (by decide), ascii_len (by decide), hhex]

theorem quoted_char_len (c : Char) : byte_len (quoted_char c) ≤ 6 := by
  have hone : byte_len [c] ≤ 4 := byte_len_le [c]
  have hescape : byte_len (unicode_escape c.toNat) ≤ 6 := (unicode_escape_len _).le
  unfold quoted_char
  split_ifs
  any_goals decide
  · exact hescape
  · omega

/-- A unit takes six bytes at most, an escape; a pair takes four. -/
theorem points_len (value : JsString) :
    byte_len ((code_points value).flatMap quoted_point) ≤ 6 * value.length := by
  have hone : ∀ (point : Char ⊕ UInt16) (rest : JsString) (n : ℕ), 1 ≤ n →
      byte_len ((code_points rest).flatMap quoted_point) ≤ 6 * rest.length →
      byte_len ((point :: code_points rest).flatMap quoted_point) ≤ 6 * (rest.length + n) := by
    intro point rest n hn hrest
    have hpoint : byte_len (quoted_point point) ≤ 6 := by
      cases point with
      | inl c => exact quoted_char_len c
      | inr unit => exact (unicode_escape_len _).le
    rw [List.flatMap_cons, byte_len_append]
    omega
  fun_induction code_points value with
  | case1 => exact Nat.le_refl 0
  | case2 unit h => exact hone (.inr unit) [] 1 (le_refl _) (Nat.le_refl 0)
  | case3 unit h => exact hone (.inl (Char.ofNat unit.toNat)) [] 1 (le_refl _) (Nat.le_refl 0)
  | case4 unit next rest _ _ ih => exact hone _ rest 2 (by omega) ih
  | case5 unit next rest _ _ ih => exact hone _ (next :: rest) 1 (le_refl _) ih
  | case6 unit next rest _ _ ih => exact hone _ (next :: rest) 1 (le_refl _) ih
  | case7 unit next rest _ _ ih => exact hone _ (next :: rest) 1 (le_refl _) ih

theorem quoted_len (value : JsString) : byte_len (quoted value) ≤ 6 * value.length + 2 := by
  have hpoints := points_len value
  have hquote : byte_len ['"'] = 1 := rfl
  unfold quoted
  rw [ascii_len (by decide), byte_len_append, hquote]
  omega

theorem new_line_len (indent : ℕ) : byte_len (new_line indent) = indent + 1 := by
  unfold new_line
  rw [byte_len_ascii]
  · simp
  · intro c hc
    obtain rfl | hc := List.mem_cons.mp hc
    · decide
    · rw [List.eq_of_mem_replicate hc]
      decide

mutual

/-- **The text of a value** is no longer than its size. -/
theorem stringify_len (indent : ℕ) : ∀ v : JsValue, byte_len (v.stringify indent) ≤ v.size indent
  | .null => Nat.le_refl 4
  | .boolean true => Nat.le_succ 4
  | .boolean false => Nat.le_refl 5
  | .number value => le_refl _
  | .string value => quoted_len value
  | .object [] => by
    have hbraces : byte_len ['\x7b', '\x7d'] = 2 := rfl
    simp only [JsValue.stringify, JsValue.size, hbraces]
    omega
  | .object (entry :: entries) => by
    have hmember := member_len indent entry
    have hmembers := members_len indent entries
    have hclose : byte_len ['\x7d'] = 1 := rfl
    unfold JsValue.stringify JsValue.size entries_size
    rw [ascii_len (by decide)]
    simp only [byte_len_append, new_line_len, hclose]
    omega

theorem member_len (indent : ℕ) : ∀ entry : Str × JsValue,
    byte_len (member_text indent entry) ≤ byte_len entry.1 + 4 + entry.2.size (indent + 2)
  | (key, value) => by
    have hvalue := stringify_len (indent + 2) value
    unfold member_text
    dsimp only
    rw [ascii_len (by decide), byte_len_append, ascii_len (by decide), ascii_len (by decide),
      ascii_len (by decide)]
    omega

theorem members_len (indent : ℕ) : ∀ entries : List (Str × JsValue),
    byte_len (members_text indent entries) ≤ entries_size (indent + 2) entries
  | [] => Nat.le_refl 0
  | entry :: entries => by
    have hmember := member_len indent entry
    have hmembers := members_len indent entries
    unfold members_text entries_size
    rw [ascii_len (by decide)]
    simp only [byte_len_append, new_line_len]
    omega

end

/-! ## Members -/

section Members

variable {indent : ℕ}

theorem entries_size_append (left right : List (Str × JsValue)) :
    entries_size indent (left ++ right) = entries_size indent left + entries_size indent right := by
  induction left with
  | nil => exact (Nat.zero_add _).symm
  | cons entry left ih =>
    obtain ⟨key, value⟩ := entry
    rw [List.cons_append, entries_size, entries_size, ih]
    omega

theorem append_size {left right : List (Str × JsValue)} {a b : ℕ}
    (hleft : entries_size indent left ≤ a) (hright : entries_size indent right ≤ b) :
    entries_size indent (left ++ right) ≤ a + b := by
  rw [entries_size_append]
  exact Nat.add_le_add hleft hright

theorem object_size {entries : List (Str × JsValue)} {b : ℕ}
    (h : entries_size (indent + 2) entries ≤ b) :
    (JsValue.object entries).size indent ≤ indent + 3 + b := Nat.add_le_add_left h _

theorem field_size (name : String) {value : JsValue} {b : ℕ} (h : value.size indent ≤ b)
    (hname : byte_len name.toList ≤ 32 := by decide) :
    entries_size indent (field name value) ≤ indent + 38 + b := by
  show byte_len name.toList + indent + 6 + value.size indent + 0 ≤ _
  omega

theorem optional_size (name : String) {α : Type} {value : α → JsValue} {o : Option α} {b : ℕ}
    (h : ∀ a ∈ o, (value a).size indent ≤ b) (hname : byte_len name.toList ≤ 32 := by decide) :
    entries_size indent (optional_field name value o) ≤ indent + 38 + b := by
  cases o with
  | none => exact Nat.zero_le _
  | some a => exact field_size name (h a rfl) hname

theorem string_size (value : JsString) :
    (JsValue.string value).size indent = 6 * value.length + 2 := rfl

theorem sha_size {value : JsString} (h : sha_pattern value = true) :
    (JsValue.string value).size indent ≤ 386 := by
  unfold sha_pattern at h
  rw [Bool.and_eq_true, decide_eq_true_eq] at h
  rw [string_size, h.1]

theorem id_size {value : JsString} (h : execution_id_pattern value = true) :
    (JsValue.string value).size indent ≤ 218 := by
  unfold execution_id_pattern at h
  rw [Bool.and_eq_true, decide_eq_true_eq] at h
  rw [string_size, h.1]

theorem decimal_len {n : ℕ} (h : n ≤ 9007199254740991) : byte_len (decimal n) ≤ 16 := by
  have hascii : byte_len (decimal n) = (decimal n).length := by
    refine byte_len_ascii fun c hc => ?_
    have hdigit := List.all_eq_true.mp (decimal_digits n) c hc
    unfold is_digit at hdigit
    rw [decide_eq_true_eq] at hdigit
    exact le_trans hdigit.2 (by decide)
  rw [hascii]
  unfold decimal
  rw [Nat.length_toDigits_le_iff (by decide) (by decide)]
  omega

/-- A safe integer has sixteen digits at most. -/
theorem integer_size {value : ℤ} (h : is_safe_integer value = true) :
    (JsValue.number value).size indent ≤ 17 := by
  unfold is_safe_integer at h
  have hdecimal := decimal_len (of_decide_eq_true h)
  unfold JsValue.size integer_text
  by_cases hneg : value < 0
  · rw [if_pos hneg, ascii_len (by decide)]
    omega
  · rw [if_neg hneg]
    omega

theorem boolean_size (value : Bool) : (JsValue.boolean value).size indent ≤ 5 := le_refl 5

/-- The texts of an enumeration are short. -/
theorem word_size {word : String} (h : (js word).length ≤ 32) :
    (JsValue.string (js word)).size indent ≤ 194 := by
  rw [string_size]
  omega

end Members

/-! ## Records -/

theorem count_valid {count : ℤ} (h : (is_safe_integer count && decide (0 ≤ count)) = true) :
    is_safe_integer count = true := (Bool.and_eq_true _ _ ▸ h).1

theorem tree_size {indent : ℕ} {tree : ReuseTreeEvidenceV1} (schema : String)
    (hschema : (js schema).length ≤ 32) (h : valid_reuse_tree tree = true) :
    (tree.value schema).size indent ≤ 6 * indent + 840 := by
  unfold valid_reuse_tree at h
  simp only [Bool.and_eq_true, List.all_cons, List.all_nil, Bool.and_true] at h
  obtain ⟨hsha, ⟨hentries, -⟩, ⟨hfiles, -⟩, hbytes, -⟩ := h
  unfold ReuseTreeEvidenceV1.value
  refine le_trans (object_size (append_size (field_size "schema" (word_size hschema))
    (append_size (field_size "treeHash" (sha_size hsha))
      (append_size (field_size "entryCount" (integer_size hentries))
        (append_size (field_size "fileCount" (integer_size hfiles))
          (field_size "byteCount" (integer_size hbytes))))))) ?_
  omega

theorem evidence_size {indent : ℕ} {evidence : ProjectBuildReuseEvidenceV1}
    (h : valid_reuse_evidence evidence = true) :
    evidence.value.size indent ≤ 16 * indent + 2000 := by
  unfold valid_reuse_evidence at h
  rw [Bool.and_eq_true] at h
  have hversion : (JsValue.number 1).size (indent + 2) ≤ 17 := integer_size (by decide)
  have hinput : (evidence.projectInput.value "leanbun-project-input-tree-v1").size (indent + 2) ≤
      6 * (indent + 2) + 840 := tree_size _ (by decide) h.1
  have houtput : (evidence.projectOutput.value "leanbun-project-output-tree-v1").size (indent + 2) ≤
      6 * (indent + 2) + 840 := tree_size _ (by decide) h.2
  unfold ProjectBuildReuseEvidenceV1.value
  refine le_trans (object_size (append_size (field_size "schemaVersion" hversion)
    (append_size (field_size "projectInput" hinput) (field_size "projectOutput" houtput)))) ?_
  omega

/-- The exit code of Lake is a safe integer. -/
def ControlledBuildExecutionOutcomeV1.safe_exit (outcome : ControlledBuildExecutionOutcomeV1) :
    Bool := outcome.lakeExitCode.all is_safe_integer

theorem status_word (status : TerminalStatus) : (js status.text).length ≤ 32 := by
  cases status <;> decide

theorem reason_word (reason : TerminationReason) : (js reason.text).length ≤ 32 := by
  cases reason <;> decide

theorem signal_word (signal : TriggerSignal) : (js signal.text).length ≤ 32 := by
  cases signal <;> decide

theorem stage_word (stage : FailureStage) : (js stage.text).length ≤ 32 := by
  cases stage <;> decide

/-- The record that a valid outcome refers to has an execution id. -/
theorem valid_source {outcome : ControlledBuildExecutionOutcomeV1} {status : TerminalStatus}
    (h : valid_outcome outcome status = true) :
    ∀ id ∈ outcome.reusedFromExecutionId, execution_id_pattern id = true := by
  intro id hid
  unfold valid_outcome at h
  simp only [Bool.and_eq_true] at h
  obtain ⟨⟨⟨⟨-, hreused⟩, hnot⟩, -⟩, -⟩ := h.1
  rw [Option.mem_def] at hid
  -- only a reused outcome has a source
  by_cases hstatus : status = .reused
  · simp [hstatus, hid] at hreused
    exact hreused.1.1.1.2
  · simp [hstatus, hid] at hnot

/-- The longest member of a valid outcome is its message. -/
theorem outcome_size {outcome : ControlledBuildExecutionOutcomeV1} {status : TerminalStatus}
    (h : valid_outcome outcome status = true) (hexit : outcome.safe_exit = true) :
    outcome.value.size 2 ≤ 11000 := by
  have hsource := valid_source h
  unfold valid_outcome optional_sha at h
  simp only [Bool.and_eq_true, Option.all_eq_true, decide_eq_true_eq] at h
  obtain ⟨⟨⟨⟨⟨⟨⟨hstatus, hafter⟩, hevidence⟩, -⟩, -⟩, hcount⟩, hgroup⟩, hmessage⟩ := h
  have hexit' : ∀ code, outcome.lakeExitCode = some code → is_safe_integer code = true := by
    unfold ControlledBuildExecutionOutcomeV1.safe_exit at hexit
    simpa only [Option.all_eq_true] using hexit
  have hfailure : ∀ message, outcome.failureMessage = some message →
      (JsValue.string message).size 4 ≤ 6146 := by
    intro message hsome
    have hlength := hmessage message hsome
    rw [string_size]
    omega
  unfold ControlledBuildExecutionOutcomeV1.value
  refine le_trans (object_size (append_size
    (field_size "buildExecution" (word_size (status_word outcome.buildExecution)))
    (append_size (optional_size "lakeExitCode" fun code hcode => integer_size (hexit' code hcode))
    (append_size (optional_size "projectProtectedRecordsStable" fun b _ => boolean_size b)
    (append_size (optional_size "dependencyArtifactAfter" fun sha hsha => sha_size (hafter sha hsha))
    (append_size (optional_size "dependencyArtifactCount" fun n hn => integer_size (hcount n hn).1)
    (append_size (optional_size "bindingStable" fun b _ => boolean_size b)
    (append_size (optional_size "attestationStable" fun b _ => boolean_size b)
    (append_size (optional_size "inspectionStable" fun b _ => boolean_size b)
    (append_size (optional_size "terminationReason" fun reason _ => word_size (reason_word reason))
    (append_size (optional_size "triggerSignal" fun signal _ => word_size (signal_word signal))
    (append_size (optional_size "processGroupId" fun n hn => integer_size (hgroup n hn).1)
    (append_size (optional_size "terminationEscalated" fun b _ => boolean_size b)
    (append_size (optional_size "processGroupReaped" fun b _ => boolean_size b)
    (append_size (optional_size "reuseEvidence" fun evidence hsome =>
      evidence_size (hevidence evidence hsome))
    (append_size (optional_size "failureStage" fun stage _ => word_size (stage_word stage))
    (append_size (optional_size "failureMessage" hfailure)
      (optional_size "reusedFromExecutionId" fun id hid => id_size (hsource id hid))))))))))))))))))) ?_
  omega

theorem nullable_size {α : Type} {indent : ℕ} {value : α → JsValue} {o : Option α} {b : ℕ}
    (h : ∀ a ∈ o, (value a).size indent ≤ b) : (nullable value o).size indent ≤ b + 4 := by
  cases o with
  | none => exact Nat.le_add_left 4 b
  | some a => exact le_trans (h a rfl) (Nat.le_add_right b 4)

/-- The strings of a record that its validator does not bound. -/
def ControlledBuildExecutionRecordV1.free_length (d : ControlledBuildExecutionRecordV1) : ℕ :=
  d.projectPath.length + d.target.length + d.startedAt.length + (d.finishedAt.getD []).length

/-- The exit code of Lake, if there is one, is a safe integer. -/
def ControlledBuildExecutionRecordV1.safe_exit (d : ControlledBuildExecutionRecordV1) : Bool :=
  d.outcome.all ControlledBuildExecutionOutcomeV1.safe_exit

theorem valid_recovery_members {identity : ExecutionIdentity}
    (h : valid_recovery identity = true) :
    (∀ pid, identity.coordinatorPid = some pid → is_safe_integer pid = true) ∧
      (∀ sha, identity.projectProtectedBefore = some sha → sha_pattern sha = true) ∧
      ∀ count, identity.projectProtectedRecordCount = some count → is_safe_integer count = true := by
  unfold valid_recovery at h
  cases hpid : identity.coordinatorPid <;> cases hbefore : identity.projectProtectedBefore <;>
    cases hcount : identity.projectProtectedRecordCount <;> simp_all

theorem valid_policy_members {profile reuse : Option JsString}
    (h : valid_policy profile reuse = true) :
    (∀ sha, profile = some sha → sha_pattern sha = true) ∧
      ∀ sha, reuse = some sha → sha_pattern sha = true := by
  unfold valid_policy at h
  rw [Bool.and_eq_true, List.all_eq_true] at h
  exact ⟨fun sha hsha => h.2 sha (by simp [hsha]), fun sha hsha => h.2 sha (by simp [hsha])⟩

theorem valid_record_outcome {date_parse : JsString → Option ℤ}
    {d : ControlledBuildExecutionRecordV1} (h : valid_record date_parse d = true)
    {outcome : ControlledBuildExecutionOutcomeV1} (houtcome : d.outcome = some outcome) :
    ∃ status, valid_outcome outcome status = true := by
  unfold valid_record at h
  rw [Bool.and_eq_true] at h
  cases hstatus : d.status with
  | running => simp [hstatus, houtcome] at h
  | terminal status =>
    simp only [hstatus, houtcome, Option.any_some, Bool.and_eq_true] at h
    exact ⟨status, h.2.2⟩

/-- The strings and numbers of an identity whose size its validator bounds. -/
structure BoundedIdentity (identity : ExecutionIdentity) : Prop where
  executionId : execution_id_pattern identity.executionId = true
  projectId : sha_pattern identity.projectId = true
  imageId : sha_pattern identity.imageId = true
  bindingSha256 : sha_pattern identity.bindingSha256 = true
  attestationSha256 : sha_pattern identity.attestationSha256 = true
  profileSha256 : ∀ sha, identity.profileSha256 = some sha → sha_pattern sha = true
  reusePolicySha256 : ∀ sha, identity.reusePolicySha256 = some sha → sha_pattern sha = true
  dependencyArtifactBefore : sha_pattern identity.dependencyArtifactBefore = true
  buildLockKey : ∀ sha, identity.buildLockKey = some sha → sha_pattern sha = true
  coordinatorPid : ∀ pid, identity.coordinatorPid = some pid → is_safe_integer pid = true
  projectProtectedBefore : ∀ sha, identity.projectProtectedBefore = some sha → sha_pattern sha = true
  projectProtectedRecordCount :
    ∀ count, identity.projectProtectedRecordCount = some count → is_safe_integer count = true

theorem bounded_identity {date_parse : JsString → Option ℤ} {identity : ExecutionIdentity}
    (h : valid_identity date_parse identity = true) : BoundedIdentity identity := by
  unfold valid_identity optional_sha at h
  simp only [Bool.and_eq_true, Option.all_eq_true, List.all_cons, List.all_nil,
    Bool.and_true] at h
  obtain ⟨⟨⟨⟨⟨⟨⟨⟨hid, hproject⟩, -⟩, -⟩, himage, hbinding, hattestation, hbefore⟩, -⟩, hpolicy⟩,
    hkey⟩, hrecovery⟩ := h
  obtain ⟨hprofile, hreuse⟩ := valid_policy_members hpolicy
  obtain ⟨hpid, hprotected, hcount⟩ := valid_recovery_members hrecovery
  exact ⟨hid, hproject, himage, hbinding, hattestation, hprofile, hreuse, hbefore, hkey, hpid,
    hprotected, hcount⟩

/-- **The size of a record.** -/
theorem record_size {date_parse : JsString → Option ℤ} {d : ControlledBuildExecutionRecordV1}
    (h : valid_record date_parse d = true) (hexit : d.safe_exit = true) :
    d.value.size 0 ≤ 6 * d.free_length + 17000 := by
  have houtcome : ∀ outcome ∈ d.outcome, outcome.value.size 2 ≤ 11000 := by
    intro outcome hsome
    obtain ⟨status, hvalid⟩ := valid_record_outcome h hsome
    unfold ControlledBuildExecutionRecordV1.safe_exit at hexit
    rw [hsome] at hexit
    exact outcome_size hvalid hexit
  have hfinished : ∀ text ∈ d.finishedAt, (JsValue.string text).size 2 ≤
      6 * (d.finishedAt.getD []).length + 2 := by
    intro text hsome
    rw [hsome, Option.getD_some, string_size]
  have hi : BoundedIdentity d.toExecutionIdentity := by
    unfold valid_record at h
    rw [Bool.and_eq_true] at h
    exact bounded_identity h.1
  have hversion : (JsValue.number 1).size 2 ≤ 17 := integer_size (by decide)
  have hstatus : (js d.status.text).length ≤ 32 := by
    cases d.status with
    | running => decide
    | terminal status => exact status_word status
  unfold ControlledBuildExecutionRecordV1.value
  -- a bound for each member, in the order in which the document has them
  refine le_trans (object_size (append_size (field_size "schemaVersion" hversion)
    (append_size (field_size "recordType" (word_size (by decide)))
    (append_size (field_size "executionId" (id_size hi.executionId))
    (append_size (field_size "projectId" (sha_size hi.projectId))
    (append_size (field_size "projectPath" (string_size _).le)
    (append_size (field_size "target" (string_size _).le)
    (append_size (field_size "imageId" (sha_size hi.imageId))
    (append_size (field_size "bindingSha256" (sha_size hi.bindingSha256))
    (append_size (field_size "attestationSha256" (sha_size hi.attestationSha256))
    (append_size (optional_size "profileSha256" fun sha hsha =>
      sha_size (hi.profileSha256 sha hsha))
    (append_size (optional_size "reusePolicySha256" fun sha hsha =>
      sha_size (hi.reusePolicySha256 sha hsha))
    (append_size (field_size "dependencyArtifactBefore" (sha_size hi.dependencyArtifactBefore))
    (append_size (optional_size "buildLockKey" fun sha hsha => sha_size (hi.buildLockKey sha hsha))
    (append_size (optional_size "coordinatorPid" fun n hn => integer_size (hi.coordinatorPid n hn))
    (append_size (optional_size "projectProtectedBefore" fun sha hsha =>
      sha_size (hi.projectProtectedBefore sha hsha))
    (append_size (optional_size "projectProtectedRecordCount" fun n hn =>
      integer_size (hi.projectProtectedRecordCount n hn))
    (append_size (field_size "startedAt" (string_size _).le)
    (append_size (field_size "status" (word_size hstatus))
    (append_size (field_size "finishedAt" (nullable_size hfinished))
      (field_size "outcome" (nullable_size houtcome)))))))))))))))))))))) ?_
  unfold ControlledBuildExecutionRecordV1.free_length
  linarith

/-- **Readable records.** What a transition writes can be read back if the paths, the target and
the times are not too long. -/
theorem readable_record {date_parse : JsString → Option ℤ} {d : ControlledBuildExecutionRecordV1}
    (h : valid_record date_parse d = true) (hexit : d.safe_exit = true)
    (hlength : d.free_length ≤ 8000) : ReadableRecord date_parse ⟨some d, true⟩ d := by
  refine ⟨rfl, ?_, h⟩
  have hsize := record_size h hexit
  have htext := stringify_len 0 d.value
  have hnewline : byte_len ['\n'] = 1 := rfl
  show byte_len (d.value.stringify 0 ++ ['\n']) ≤ _
  rw [byte_len_append, hnewline]
  omega

/-- **The size of a lock.** -/
theorem lock_bounded {date_parse : JsString → Option ℤ} {lock : BuildExecutionLockV1}
    (h : valid_lock date_parse lock = true)
    (hlength : lock.projectPath.length + lock.target.length + lock.acquiredAt.length ≤ 4000) :
    byte_len lock.canonical_text ≤ 32 * 1024 := by
  unfold valid_lock at h
  simp only [Bool.and_eq_true] at h
  obtain ⟨⟨⟨⟨⟨⟨⟨⟨⟨⟨hkey, hid⟩, hproject⟩, -⟩, himage⟩, -⟩, hpid⟩, -⟩, -⟩, -⟩, -⟩ := h
  have hversion : (JsValue.number 1).size 2 ≤ 17 := integer_size (by decide)
  have hsize : lock.value.size 0 ≤ 6 * (lock.projectPath.length + lock.target.length +
      lock.acquiredAt.length) + 4000 := by
    unfold BuildExecutionLockV1.value
    refine le_trans (object_size (append_size (field_size "schemaVersion" hversion)
      (append_size (field_size "recordType" (word_size (by decide)))
      (append_size (field_size "key" (sha_size hkey))
      (append_size (field_size "executionId" (id_size hid))
      (append_size (field_size "projectId" (sha_size hproject))
      (append_size (field_size "projectPath" (string_size _).le)
      (append_size (field_size "imageId" (sha_size himage))
      (append_size (field_size "target" (string_size _).le)
      (append_size (field_size "coordinatorPid" (integer_size hpid))
        (field_size "acquiredAt" (string_size _).le))))))))))) ?_
    omega
  have htext := stringify_len 0 lock.value
  have hnewline : byte_len ['\n'] = 1 := rfl
  unfold BuildExecutionLockV1.canonical_text
  rw [byte_len_append, hnewline]
  omega

end LeanBun.Execution
