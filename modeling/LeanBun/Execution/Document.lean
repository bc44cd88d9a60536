/-
The documents of the execution store and of the build locks.

A JavaScript string is a sequence of 16-bit code units; nothing makes its surrogates come
in pairs, and `JSON.stringify` writes the ones that do not as escapes. A document is
stored as its indented JSON text with a newline. `JSON.parse` of that text is the document
again, so a stored file is represented by its document, and its text is used for its size
and its digest, and where another reader takes it. Checks that the types of the fields
make vacuous are left out of the validators.
-/
import LeanBun.Core.Sha256

set_option autoImplicit false

namespace LeanBun.Execution

open LeanBun.Lib LeanBun.Core

/-! ## JavaScript strings -/

/-- A string: its code units. -/
abbrev JsString := List UInt16

/-- The code units of a text. -/
def code_units (c : Char) : JsString :=
  if c.toNat < 0x10000 then [UInt16.ofNat c.toNat]
  else [UInt16.ofNat (0xd800 + (c.toNat - 0x10000) / 0x400),
    UInt16.ofNat (0xdc00 + (c.toNat - 0x10000) % 0x400)]

/-- A text as a string. -/
def js_text (text : Str) : JsString := text.flatMap code_units

/-- A string literal. -/
def js (text : String) : JsString := js_text text.toList

def is_high_surrogate (unit : UInt16) : Bool := decide (0xd800 ≤ unit.toNat ∧ unit.toNat ≤ 0xdbff)

def is_low_surrogate (unit : UInt16) : Bool := decide (0xdc00 ≤ unit.toNat ∧ unit.toNat ≤ 0xdfff)

/-- The code point of a surrogate pair. -/
def paired (high low : UInt16) : Char :=
  Char.ofNat (0x10000 + (high.toNat - 0xd800) * 0x400 + (low.toNat - 0xdc00))

/-- The code points of a string: characters, and the surrogates that have no partner. -/
def code_points : JsString → List (Char ⊕ UInt16)
  | [] => []
  | [unit] =>
    if is_high_surrogate unit || is_low_surrogate unit then [.inr unit]
    else [.inl (Char.ofNat unit.toNat)]
  | unit :: next :: rest =>
    if is_high_surrogate unit then
      if is_low_surrogate next then .inl (paired unit next) :: code_points rest
      else .inr unit :: code_points (next :: rest)
    else if is_low_surrogate unit then .inr unit :: code_points (next :: rest)
    else .inl (Char.ofNat unit.toNat) :: code_points (next :: rest)

/-- `/^[0-9a-f]{n}$/`, for one unit. -/
def is_lower_hex_unit (unit : UInt16) : Bool :=
  decide (0x30 ≤ unit.toNat ∧ unit.toNat ≤ 0x39) || decide (0x61 ≤ unit.toNat ∧ unit.toNat ≤ 0x66)

/-- `shaPattern`. -/
def sha_pattern (value : JsString) : Bool :=
  decide (value.length = 64) && value.all is_lower_hex_unit

/-- The unit that `executionIdPattern` wants at a position. -/
def id_unit (position : ℕ) (unit : UInt16) : Bool :=
  if position = 8 ∨ position = 13 ∨ position = 18 ∨ position = 23 then decide (unit = 0x2d)
  else if position = 14 then decide (unit = 0x34)
  else if position = 19 then
    decide (unit = 0x38) || decide (unit = 0x39) || decide (unit = 0x61) || decide (unit = 0x62)
  else is_lower_hex_unit unit

/-- `executionIdPattern`. -/
def execution_id_pattern (value : JsString) : Bool :=
  decide (value.length = 36) && value.zipIdx.all fun entry => id_unit entry.2 entry.1

/-- `Number.isSafeInteger`. -/
def is_safe_integer (value : ℤ) : Bool := decide (value.natAbs ≤ 9007199254740991)

/-! ## JSON text -/

/-- The values that occur in documents; a number is an integer. -/
inductive JsValue where
  | null
  | boolean (value : Bool)
  | number (value : ℤ)
  | string (value : JsString)
  | object (entries : List (Str × JsValue))

/-- `\u` and four lowercase hexadecimal digits. -/
def unicode_escape (unit : ℕ) : Str := '\\' :: 'u' :: hex [UInt8.ofNat (unit / 256), UInt8.ofNat unit]

/-- A character inside a quoted string. -/
def quoted_char (c : Char) : Str :=
  if c = '"' then ['\\', '"']
  else if c = '\\' then ['\\', '\\']
  else if c.toNat = 0x08 then ['\\', 'b']
  else if c.toNat = 0x0c then ['\\', 'f']
  else if c = '\n' then ['\\', 'n']
  else if c = '\r' then ['\\', 'r']
  else if c = '\t' then ['\\', 't']
  else if c.toNat < 0x20 then unicode_escape c.toNat
  else [c]

def quoted_point : Char ⊕ UInt16 → Str
  | .inl c => quoted_char c
  | .inr unit => unicode_escape unit.toNat

/-- A quoted string. -/
def quoted (value : JsString) : Str := '"' :: ((code_points value).flatMap quoted_point ++ ['"'])

/-- An integer in decimal. -/
def integer_text (value : ℤ) : Str :=
  if value < 0 then '-' :: decimal value.natAbs else decimal value.natAbs

/-- A new line at an indentation. -/
def new_line (indent : ℕ) : Str := '\n' :: List.replicate indent ' '

mutual

/-- `JSON.stringify(value, null, 2)` at an indentation. -/
def JsValue.stringify (indent : ℕ) : JsValue → Str
  | .null => "null".toList
  | .boolean true => "true".toList
  | .boolean false => "false".toList
  | .number value => integer_text value
  | .string value => quoted value
  | .object [] => ['\x7b', '\x7d']
  | .object (entry :: entries) =>
    '\x7b' :: (new_line (indent + 2) ++ (member_text indent entry ++
      (members_text indent entries ++ (new_line indent ++ ['\x7d']))))

/-- A member of an object. -/
def member_text (indent : ℕ) : Str × JsValue → Str
  | (key, value) => '"' :: (key ++ ('"' :: ':' :: ' ' :: value.stringify (indent + 2)))

/-- The members after the first. -/
def members_text (indent : ℕ) : List (Str × JsValue) → Str
  | [] => []
  | entry :: entries =>
    ',' :: (new_line (indent + 2) ++ (member_text indent entry ++ members_text indent entries))

end

/-! ## The execution record -/

inductive TerminationReason where
  | exit
  | timeout
  | signal
deriving DecidableEq

inductive TriggerSignal where
  | SIGINT
  | SIGTERM
  | ABORT
deriving DecidableEq

inductive FailureStage where
  | sandbox_execution
  | post_build_verification
  | reuse_verification
  | recovery
  | internal
deriving DecidableEq

/-- `"completed" | "failed" | "reused"`. -/
inductive TerminalStatus where
  | completed
  | failed
  | reused
deriving DecidableEq

/-- The status of a record. -/
inductive ExecutionStatus where
  | running
  | terminal (status : TerminalStatus)
deriving DecidableEq

/-- One tree of `ProjectBuildReuseEvidenceV1`; its schema is fixed by its place. -/
structure ReuseTreeEvidenceV1 where
  treeHash : JsString
  entryCount : ℤ
  fileCount : ℤ
  byteCount : ℤ
deriving DecidableEq

/-- `ProjectBuildReuseEvidenceV1`. -/
structure ProjectBuildReuseEvidenceV1 where
  projectInput : ReuseTreeEvidenceV1
  projectOutput : ReuseTreeEvidenceV1
deriving DecidableEq

/-- `ControlledBuildExecutionOutcomeV1`. -/
structure ControlledBuildExecutionOutcomeV1 where
  buildExecution : TerminalStatus
  lakeExitCode : Option ℤ
  projectProtectedRecordsStable : Option Bool
  dependencyArtifactAfter : Option JsString
  dependencyArtifactCount : Option ℤ
  bindingStable : Option Bool
  attestationStable : Option Bool
  inspectionStable : Option Bool
  terminationReason : Option TerminationReason
  triggerSignal : Option TriggerSignal
  processGroupId : Option ℤ
  terminationEscalated : Option Bool
  processGroupReaped : Option Bool
  reuseEvidence : Option ProjectBuildReuseEvidenceV1
  failureStage : Option FailureStage
  failureMessage : Option JsString
  reusedFromExecutionId : Option JsString
deriving DecidableEq

/-- What `beginExecutionRecord` takes: the record without its status and its end. -/
structure ExecutionIdentity where
  executionId : JsString
  projectId : JsString
  projectPath : JsString
  target : JsString
  imageId : JsString
  bindingSha256 : JsString
  attestationSha256 : JsString
  profileSha256 : Option JsString
  reusePolicySha256 : Option JsString
  dependencyArtifactBefore : JsString
  buildLockKey : Option JsString
  coordinatorPid : Option ℤ
  projectProtectedBefore : Option JsString
  projectProtectedRecordCount : Option ℤ
  startedAt : JsString
deriving DecidableEq

/-- `ControlledBuildExecutionRecordV1`. -/
structure ControlledBuildExecutionRecordV1 extends ExecutionIdentity where
  status : ExecutionStatus
  finishedAt : Option JsString
  outcome : Option ControlledBuildExecutionOutcomeV1
deriving DecidableEq

/-- The record that `beginExecutionRecord` writes. -/
def ExecutionIdentity.started (identity : ExecutionIdentity) : ControlledBuildExecutionRecordV1 :=
  { identity with status := .running, finishedAt := none, outcome := none }

/-- `{ ...running, status, finishedAt, outcome }`. -/
def ControlledBuildExecutionRecordV1.finished (running : ControlledBuildExecutionRecordV1)
    (status : TerminalStatus) (finishedAt : JsString) (outcome : ControlledBuildExecutionOutcomeV1) :
    ControlledBuildExecutionRecordV1 :=
  { running with status := .terminal status, finishedAt := some finishedAt, outcome := some outcome }

/-! ## Its text -/

def TerminalStatus.text : TerminalStatus → String
  | .completed => "completed"
  | .failed => "failed"
  | .reused => "reused"

def ExecutionStatus.text : ExecutionStatus → String
  | .running => "running"
  | .terminal status => status.text

def TerminationReason.text : TerminationReason → String
  | .exit => "exit"
  | .timeout => "timeout"
  | .signal => "signal"

def TriggerSignal.text : TriggerSignal → String
  | .SIGINT => "SIGINT"
  | .SIGTERM => "SIGTERM"
  | .ABORT => "ABORT"

def FailureStage.text : FailureStage → String
  | .sandbox_execution => "sandbox-execution"
  | .post_build_verification => "post-build-verification"
  | .reuse_verification => "reuse-verification"
  | .recovery => "recovery"
  | .internal => "internal"

/-- A member, and an optional member: `undefined` is not written. -/
def field (name : String) (value : JsValue) : List (Str × JsValue) := [(name.toList, value)]

def optional_field {α : Type} (name : String) (value : α → JsValue) : Option α → List (Str × JsValue)
  | none => []
  | some a => field name (value a)

def ReuseTreeEvidenceV1.value (schema : String) (tree : ReuseTreeEvidenceV1) : JsValue :=
  .object (field "schema" (.string (js schema)) ++ (field "treeHash" (.string tree.treeHash) ++
    (field "entryCount" (.number tree.entryCount) ++ (field "fileCount" (.number tree.fileCount) ++
      field "byteCount" (.number tree.byteCount)))))

def ProjectBuildReuseEvidenceV1.value (evidence : ProjectBuildReuseEvidenceV1) : JsValue :=
  .object (field "schemaVersion" (.number 1) ++
    (field "projectInput" (evidence.projectInput.value "leanbun-project-input-tree-v1") ++
      field "projectOutput" (evidence.projectOutput.value "leanbun-project-output-tree-v1")))

/-- The outcome, its members in the order in which the callers write them. -/
def ControlledBuildExecutionOutcomeV1.value (outcome : ControlledBuildExecutionOutcomeV1) : JsValue :=
  .object (field "buildExecution" (.string (js outcome.buildExecution.text)) ++
    (optional_field "lakeExitCode" .number outcome.lakeExitCode ++
    (optional_field "projectProtectedRecordsStable" .boolean outcome.projectProtectedRecordsStable ++
    (optional_field "dependencyArtifactAfter" .string outcome.dependencyArtifactAfter ++
    (optional_field "dependencyArtifactCount" .number outcome.dependencyArtifactCount ++
    (optional_field "bindingStable" .boolean outcome.bindingStable ++
    (optional_field "attestationStable" .boolean outcome.attestationStable ++
    (optional_field "inspectionStable" .boolean outcome.inspectionStable ++
    (optional_field "terminationReason" (fun reason => .string (js reason.text))
      outcome.terminationReason ++
    (optional_field "triggerSignal" (fun signal => .string (js signal.text)) outcome.triggerSignal ++
    (optional_field "processGroupId" .number outcome.processGroupId ++
    (optional_field "terminationEscalated" .boolean outcome.terminationEscalated ++
    (optional_field "processGroupReaped" .boolean outcome.processGroupReaped ++
    (optional_field "reuseEvidence" ProjectBuildReuseEvidenceV1.value outcome.reuseEvidence ++
    (optional_field "failureStage" (fun stage => .string (js stage.text)) outcome.failureStage ++
    (optional_field "failureMessage" .string outcome.failureMessage ++
      optional_field "reusedFromExecutionId" .string outcome.reusedFromExecutionId))))))))))))))))

/-- `null` where there is no value. -/
def nullable {α : Type} (value : α → JsValue) : Option α → JsValue
  | none => .null
  | some a => value a

/-- The record, its members in the order in which they are written. -/
def ControlledBuildExecutionRecordV1.value (record : ControlledBuildExecutionRecordV1) : JsValue :=
  .object (field "schemaVersion" (.number 1) ++
    (field "recordType" (.string (js "controlled-build-execution")) ++
    (field "executionId" (.string record.executionId) ++
    (field "projectId" (.string record.projectId) ++
    (field "projectPath" (.string record.projectPath) ++
    (field "target" (.string record.target) ++
    (field "imageId" (.string record.imageId) ++
    (field "bindingSha256" (.string record.bindingSha256) ++
    (field "attestationSha256" (.string record.attestationSha256) ++
    (optional_field "profileSha256" .string record.profileSha256 ++
    (optional_field "reusePolicySha256" .string record.reusePolicySha256 ++
    (field "dependencyArtifactBefore" (.string record.dependencyArtifactBefore) ++
    (optional_field "buildLockKey" .string record.buildLockKey ++
    (optional_field "coordinatorPid" .number record.coordinatorPid ++
    (optional_field "projectProtectedBefore" .string record.projectProtectedBefore ++
    (optional_field "projectProtectedRecordCount" .number record.projectProtectedRecordCount ++
    (field "startedAt" (.string record.startedAt) ++
    (field "status" (.string (js record.status.text)) ++
    (field "finishedAt" (nullable .string record.finishedAt) ++
      field "outcome" (nullable ControlledBuildExecutionOutcomeV1.value
        record.outcome))))))))))))))))))))

/-- `canonicalBytes` of a record, as a text. -/
def ControlledBuildExecutionRecordV1.canonical_text (record : ControlledBuildExecutionRecordV1) : Str :=
  record.value.stringify 0 ++ ['\n']

/-- `hashBytes` of a text: the digest in hexadecimal. -/
def hash_text (text : Str) : JsString := js_text (digest (as_bytes text)).to_string

/-! ## Its validators -/

section Validators

-- `Date.parse`, where it gives a finite number.
variable (date_parse : JsString → Option ℤ)

/-- `validTimestamp`. -/
def valid_timestamp (value : JsString) : Bool := (date_parse value).isSome

/-- An optional SHA-256 field. -/
def optional_sha (value : Option JsString) : Bool := value.all sha_pattern

/-- `validReuseTree`. -/
def valid_reuse_tree (tree : ReuseTreeEvidenceV1) : Bool :=
  sha_pattern tree.treeHash &&
    [tree.entryCount, tree.fileCount, tree.byteCount].all fun item =>
      is_safe_integer item && decide (0 ≤ item)

/-- `validReuseEvidence`. -/
def valid_reuse_evidence (evidence : ProjectBuildReuseEvidenceV1) : Bool :=
  valid_reuse_tree evidence.projectInput && valid_reuse_tree evidence.projectOutput

/-- `validOutcome`. -/
def valid_outcome (outcome : ControlledBuildExecutionOutcomeV1) (status : TerminalStatus) : Bool :=
  decide (outcome.buildExecution = status) &&
  optional_sha outcome.dependencyArtifactAfter &&
  outcome.reuseEvidence.all valid_reuse_evidence &&
  !(decide (status = .reused) && (outcome.reuseEvidence.isNone ||
    !outcome.reusedFromExecutionId.any execution_id_pattern || outcome.lakeExitCode.isSome ||
    outcome.terminationReason.isSome || outcome.processGroupId.isSome)) &&
  !(decide (status ≠ .reused) && outcome.reusedFromExecutionId.isSome) &&
  outcome.dependencyArtifactCount.all (fun count => is_safe_integer count && decide (0 ≤ count)) &&
  outcome.processGroupId.all (fun id => is_safe_integer id && decide (0 < id)) &&
  outcome.failureMessage.all fun message => decide (message.length ≤ 1024)

/-- Exactly one of the policy digests, and it is one. -/
def valid_policy (profile reuse : Option JsString) : Bool :=
  decide ((profile.toList ++ reuse.toList).length = 1) &&
    (profile.toList ++ reuse.toList).all sha_pattern

/-- The recovery fields, all of them or none. -/
def valid_recovery (identity : ExecutionIdentity) : Bool :=
  match identity.coordinatorPid, identity.projectProtectedBefore,
    identity.projectProtectedRecordCount with
  | none, none, none => true
  | some pid, some protected_before, some count =>
    is_safe_integer pid && decide (0 < pid) && sha_pattern protected_before &&
      is_safe_integer count && decide (0 ≤ count)
  | _, _, _ => false

/-- The part of `validRecord` about the identity. -/
def valid_identity (identity : ExecutionIdentity) : Bool :=
  execution_id_pattern identity.executionId && sha_pattern identity.projectId &&
  !identity.projectPath.isEmpty && !identity.target.isEmpty &&
  [identity.imageId, identity.bindingSha256, identity.attestationSha256,
    identity.dependencyArtifactBefore].all sha_pattern &&
  valid_timestamp date_parse identity.startedAt &&
  valid_policy identity.profileSha256 identity.reusePolicySha256 &&
  optional_sha identity.buildLockKey && valid_recovery identity

/-- `validRecord`. -/
def valid_record (record : ControlledBuildExecutionRecordV1) : Bool :=
  valid_identity date_parse record.toExecutionIdentity &&
    match record.status with
    | .running => record.finishedAt.isNone && record.outcome.isNone
    | .terminal status => record.finishedAt.any (valid_timestamp date_parse) &&
        record.outcome.any fun outcome => valid_outcome outcome status

end Validators

/-! ## The build lock -/

/-- `BuildExecutionLockV1` without its key. -/
structure LockIdentity where
  executionId : JsString
  projectId : JsString
  projectPath : JsString
  imageId : JsString
  target : JsString
  coordinatorPid : ℤ
  acquiredAt : JsString
deriving DecidableEq

/-- `BuildExecutionLockV1`. -/
structure BuildExecutionLockV1 extends LockIdentity where
  key : JsString
deriving DecidableEq

/-- `JSON.stringify` without indentation, of an object with string members. -/
def compact_text (entries : List (Str × JsString)) : Str :=
  '\x7b' :: ((entries.map fun entry => '"' :: (entry.1 ++ ('"' :: ':' :: quoted entry.2))).intersperse
    [',']).flatten ++ ['\x7d']

/-- `hasher.update(value)` of a string, which writes unpaired surrogates as U+FFFD. -/
def hash_string (value : JsString) : JsString :=
  hash_text ((code_points value).map fun point => match point with
    | .inl c => c
    | .inr _ => '\uFFFD')

/-- `buildLockKey`. -/
def build_lock_key (project image : JsString) : JsString :=
  hash_text (compact_text [("schema".toList, js "leanbun-build-lock-v1"),
    ("projectId".toList, project), ("imageId".toList, image)])

/-- `projectId`. -/
def project_id (projectPath : JsString) : JsString :=
  hash_string (js "leanbun-project-v1\x00" ++ projectPath)

/-- `validLock`. -/
def valid_lock (date_parse : JsString → Option ℤ) (lock : BuildExecutionLockV1) : Bool :=
  sha_pattern lock.key && execution_id_pattern lock.executionId && sha_pattern lock.projectId &&
  !lock.projectPath.isEmpty && sha_pattern lock.imageId && !lock.target.isEmpty &&
  is_safe_integer lock.coordinatorPid && decide (0 < lock.coordinatorPid) &&
  valid_timestamp date_parse lock.acquiredAt &&
  decide (lock.key = build_lock_key lock.projectId lock.imageId) &&
  decide (lock.projectId = project_id lock.projectPath)

/-- The lock document, its members in the order in which they are written. -/
def BuildExecutionLockV1.value (lock : BuildExecutionLockV1) : JsValue :=
  .object (field "schemaVersion" (.number 1) ++
    (field "recordType" (.string (js "build-execution-lock")) ++
    (field "key" (.string lock.key) ++ (field "executionId" (.string lock.executionId) ++
    (field "projectId" (.string lock.projectId) ++ (field "projectPath" (.string lock.projectPath) ++
    (field "imageId" (.string lock.imageId) ++ (field "target" (.string lock.target) ++
    (field "coordinatorPid" (.number lock.coordinatorPid) ++
      field "acquiredAt" (.string lock.acquiredAt))))))))))

/-- `canonicalBytes` of a lock, as a text. -/
def BuildExecutionLockV1.canonical_text (lock : BuildExecutionLockV1) : Str :=
  lock.value.stringify 0 ++ ['\n']

end LeanBun.Execution
