/-
The reuse transaction.

Under the build lock of its project and image, and with a running record of its own, a
transaction lists the records of the store, selects a candidate, and compares the recorded
trees with those of the project. It finalizes its record as `reused` when everything agrees
and as `failed` otherwise.

What it reads outside of the state root is given as the results of these reads; a read of a
document that is missing or invalid gives nothing. Of the report the diagnostics, the times
and the fields about the lock are left out.
-/
import LeanBun.Execution.Recover
import LeanBun.Reuse.Candidate

set_option autoImplicit false

namespace LeanBun.Reuse

open LeanBun.Lib LeanBun.Core LeanBun.Execution

/-! ## Listing the records -/

/-- The ids of the record files among the entries of the directory, in the order of `sort`. -/
def record_ids (entries : List JsString) : List JsString :=
  (sort_by_key (fun name => name.map UInt16.toNat)
    (entries.filter fun name => (js ".json").isSuffixOf name)).map fun name =>
      name.take (name.length - 5)

/-- `Promise.all` over the records. -/
def load_records (env : Environment) (stateRoot : JsString) :
    List JsString → StoreProg (List StoredExecutionRecord)
  | [] => return []
  | id :: ids => do
    let stored ← loadExecutionRecord (env.part 0) stateRoot id
    let rest ← load_records (env.part 1) stateRoot ids
    return stored :: rest

/-- `listExecutionRecords`. -/
def listExecutionRecords (env : Environment) (readdir : StateRoot → List JsString)
    (stateRoot : JsString) : StoreProg (List StoredExecutionRecord) := do
  let present ← env.inspect .lstat fun s => .ok s.executions_directory
  if !present then return []
  else do
    prepareExecutionDirectory (env.part 0) stateRoot false
    let ids ← (env.part 1).inspect .inspect_directory fun s => .ok (record_ids (readdir s))
    if 10000 < ids.length then
      throw_store .FAILED (js "execution record scan exceeds limit: " ++
        (js_integer ids.length ++ js " > 10000"))
    else if ids.any fun id => !execution_id_pattern id then
      throw_store .CONFLICT (js "execution record store contains a non-canonical JSON record name")
    else load_records (env.part 2) stateRoot ids

/-! ## The snapshot -/

/-- What a transaction takes from the libraries: the sort key of a collation, and the
entries of the directory of records. -/
structure ReuseEnvironment extends Environment where
  collation_key : JsString → List ℕ
  readdir : StateRoot → List JsString

/-- `ReuseSnapshot`. -/
structure ReuseSnapshot where
  candidate : Option StoredExecutionRecord
  projectInput : Option TreeComparison
  projectOutput : Option TreeComparison
  eligible : Bool

/-- `{ eligible: false }`. -/
def no_snapshot : ReuseSnapshot := ⟨none, none, none, false⟩

/-- The evidence of a record. -/
def reuse_evidence (record : ControlledBuildExecutionRecordV1) : Option ProjectBuildReuseEvidenceV1 :=
  record.outcome.bind ControlledBuildExecutionOutcomeV1.reuseEvidence

/-- The comparison of `evaluateReuseSnapshot` with the trees of the project. -/
def snapshot_of (candidate : StoredExecutionRecord) (evidence : ProjectBuildReuseEvidenceV1)
    (trees : CanonicalTreeHash × CanonicalTreeHash) : ReuseSnapshot :=
  let input := compareReuseTree (js "leanbun-project-input-tree-v1") evidence.projectInput trees.1
  let output := compareReuseTree (js "leanbun-project-output-tree-v1") evidence.projectOutput trees.2
  ⟨some candidate, some input, some output, input.tree_matches && output.tree_matches⟩

/-- `evaluateReuseSnapshot`. -/
def evaluateReuseSnapshot (env : ReuseEnvironment) (stateRoot : JsString) (identity : ReuseIdentity)
    (trees : Except StoreFailure (CanonicalTreeHash × CanonicalTreeHash)) :
    StoreProg ReuseSnapshot := do
  let records ← listExecutionRecords env.toEnvironment env.readdir stateRoot
  match selectReuseCandidate env.date_parse env.collation_key records identity with
  | none => return no_snapshot
  | some candidate =>
    match reuse_evidence candidate.document with
    | none => return no_snapshot
    | some evidence => do
      let trees ← Prog.lift trees
      return snapshot_of candidate evidence trees

/-! ## The transaction -/

/-- A valid project binding. -/
structure LoadedBinding where
  projectId : JsString
  imageId : JsString
  sha256 : JsString

/-- A valid image attestation. -/
structure LoadedAttestation where
  sha256 : JsString
  artifactTreeHash : JsString

/-- `imageEvidence.artifactTree`. -/
structure ArtifactTree where
  treeHash : JsString
  fileCount : ℤ

/-- What a transaction uses of `BuildPreflightReport`. -/
structure Preflight where
  approved : Bool
  artifactTree : Option ArtifactTree

/-- What a transaction finds outside of the state root, and its own id and times. The
protected records of the project are those of `protectedProjectRecords`, as texts; `trees`
are the trees of the project while its records are compared. -/
structure ReuseReadings where
  project : JsString
  target : JsString
  aborted : Bool
  inside : Bool
  initialBinding : Option LoadedBinding
  initialAttestation : Option LoadedAttestation
  executionId : JsString
  pid : ℤ
  acquiredAt : JsString
  startedAt : JsString
  finishedAt : JsString
  projectBefore : Except StoreFailure (List Str)
  preflight : Except StoreFailure Preflight
  cancelled : Option TriggerSignal
  binding : Option LoadedBinding
  attestation : Option LoadedAttestation
  trees : Except StoreFailure (CanonicalTreeHash × CanonicalTreeHash)
  projectAfter : Except StoreFailure (List Str)

/-- `reusePolicySha256`. -/
def reusePolicySha256 : JsString :=
  hash_text (compact_text [("schema".toList, js "leanbun-reuse-transaction-v1"),
    ("candidate".toList, js "latest-compatible-completed-record"),
    ("verification".toList, js "full-attestation-and-live-project-trees-under-build-lock"),
    ("lake".toList, js "not-executed")])

/-- `hashProtectedProjectRecords`. -/
def hashProtectedProjectRecords (records : List Str) : JsString :=
  hash_text (records.flatMap fun record => record ++ ['\n'])

section Transaction

variable (r : ReuseReadings)

/-- The input of `acquireBuildLock`. -/
def ReuseReadings.lock (binding : LoadedBinding) : LockIdentity where
  executionId := r.executionId
  projectId := binding.projectId
  projectPath := r.project
  imageId := binding.imageId
  target := r.target
  coordinatorPid := r.pid
  acquiredAt := r.acquiredAt

/-- The input of `beginExecutionRecord`. -/
def ReuseReadings.record (binding : LoadedBinding) (attestation : LoadedAttestation)
    (buildLockKey : JsString) (before : List Str) : ExecutionIdentity where
  executionId := r.executionId
  projectId := binding.projectId
  projectPath := r.project
  target := r.target
  imageId := binding.imageId
  bindingSha256 := binding.sha256
  attestationSha256 := attestation.sha256
  profileSha256 := none
  reusePolicySha256 := some reusePolicySha256
  dependencyArtifactBefore := attestation.artifactTreeHash
  buildLockKey := some buildLockKey
  coordinatorPid := some r.pid
  projectProtectedBefore := some (hashProtectedProjectRecords before)
  projectProtectedRecordCount := some before.length
  startedAt := r.startedAt

/-- The identity that candidates are selected by. -/
def ReuseReadings.candidates (binding : LoadedBinding) (attestation : LoadedAttestation) :
    ReuseIdentity :=
  ⟨binding.projectId, r.project, binding.imageId, r.target, binding.sha256, attestation.sha256⟩

/-- What the verification under the lock has found. -/
structure Verification where
  preflight : Preflight
  bindingStable : Bool
  attestationStable : Bool
  projectProtectedRecordsStable : Bool
  snapshot : ReuseSnapshot

/-- The evaluation of the snapshot, with its condition. -/
def evaluate_if_valid (env : ReuseEnvironment) (stateRoot : JsString) :
    Option LoadedBinding → Option LoadedAttestation → StoreProg ReuseSnapshot
  | some binding, some attestation =>
    evaluateReuseSnapshot env stateRoot (r.candidates binding attestation) r.trees
  | _, _ => return no_snapshot

/-- From the preflight to the second snapshot of the project. -/
def verify_under_lock (env : ReuseEnvironment) (stateRoot : JsString) (initialBinding : LoadedBinding)
    (initialAttestation : LoadedAttestation) (before : List Str) : StoreProg Verification := do
  let preflight ← Prog.lift r.preflight
  let snapshot ← evaluate_if_valid r env stateRoot r.binding r.attestation
  let projectAfter ← Prog.lift r.projectAfter
  return ⟨preflight, r.binding.any fun binding => decide (binding.sha256 = initialBinding.sha256),
    r.attestation.any fun attestation => decide (attestation.sha256 = initialAttestation.sha256),
    decide (before = projectAfter), snapshot⟩

/-- What is reused, when the transaction is `approved`. -/
def Verification.reusable (v : Verification) (cancelled : Bool) :
    Option (StoredExecutionRecord × ProjectBuildReuseEvidenceV1 × ArtifactTree) :=
  if !cancelled && v.preflight.approved && v.bindingStable && v.attestationStable &&
      v.projectProtectedRecordsStable && v.snapshot.eligible then
    match v.preflight.artifactTree, v.snapshot.candidate with
    | some tree, some candidate =>
      (reuse_evidence candidate.document).map fun evidence => (candidate, evidence, tree)
    | _, _ => none
  else none

/-- An outcome with nothing but a status. -/
def bare_outcome (status : TerminalStatus) : ControlledBuildExecutionOutcomeV1 :=
  ⟨status, none, none, none, none, none, none, none, none, none, none, none, none, none, none, none,
    none⟩

/-- The outcome of a reuse. -/
def reused_outcome (candidate : StoredExecutionRecord) (evidence : ProjectBuildReuseEvidenceV1)
    (tree : ArtifactTree) : ControlledBuildExecutionOutcomeV1 :=
  { bare_outcome .reused with
    projectProtectedRecordsStable := some true
    dependencyArtifactAfter := some tree.treeHash
    dependencyArtifactCount := some tree.fileCount
    bindingStable := some true
    attestationStable := some true
    inspectionStable := some true
    reuseEvidence := some evidence
    reusedFromExecutionId := some candidate.document.executionId }

/-- The outcome of a verification that does not allow a reuse. -/
def failed_outcome (v : Verification) (cancelled : Option TriggerSignal) :
    ControlledBuildExecutionOutcomeV1 :=
  { bare_outcome .failed with
    projectProtectedRecordsStable := some v.projectProtectedRecordsStable
    dependencyArtifactAfter := v.preflight.artifactTree.map ArtifactTree.treeHash
    dependencyArtifactCount := v.preflight.artifactTree.map ArtifactTree.fileCount
    bindingStable := some v.bindingStable
    attestationStable := some v.attestationStable
    inspectionStable := some v.preflight.approved
    failureStage := some .reuse_verification
    failureMessage := some (match cancelled with
      | some signal => js "reuse transaction cancelled by " ++ js signal.text
      | none => js
        "lock-held reuse evidence did not satisfy every authorization and snapshot condition") }

/-- The outcome of a verification that cannot complete. -/
def error_outcome (message : JsString) : ControlledBuildExecutionOutcomeV1 :=
  { bare_outcome .failed with
    failureStage := some .reuse_verification
    failureMessage := some (message.take 1024) }

end Transaction

inductive ReuseStatus where
  | reused
  | failed
deriving DecidableEq

inductive ReuseExecution where
  | reused
  | failed
  | not_attempted
deriving DecidableEq

/-- `ReuseTransactionReport`. -/
structure ReuseTransactionReport where
  status : ReuseStatus
  buildExecution : ReuseExecution
  verified : Bool
  reusedFromExecutionId : Option JsString
  projectInput : Option TreeComparison
  projectOutput : Option TreeComparison
  triggerSignal : Option TriggerSignal
  executionRecord : Option StoredExecutionRecord

/-- The report of a transaction that is over before it has a record. -/
def not_attempted : ReuseTransactionReport :=
  ⟨.failed, .not_attempted, false, none, none, none, none, none⟩

/-- `recordReference`. -/
def recordReference (record : StoredExecutionRecord) : Except StoreFailure StoredExecutionRecord :=
  if record.document.status = .terminal .completed then
    .error (.node .other (js "unexpected reuse transaction record status: completed"))
  else .ok record

section Program

variable (env : ReuseEnvironment) (stateRoot : JsString) (r : ReuseReadings)

/-- The finalization of the record and the release of the lock. -/
def finish_transaction (lock : StoredBuildLock) (status : TerminalStatus)
    (outcome : ControlledBuildExecutionOutcomeV1) (report : ReuseTransactionReport) :
    StoreProg ReuseTransactionReport := do
  let terminal ← finalizeExecutionRecord (env.part 4) stateRoot r.executionId status r.finishedAt
    outcome
  let _ ← releaseBuildLock (env.part 5) stateRoot lock.document.expected
  let reference ← Prog.lift (recordReference terminal)
  return { report with executionRecord := some reference }

/-- What follows from the verification. -/
def conclude (lock : StoredBuildLock) :
    Except StoreFailure Verification → StoreProg ReuseTransactionReport
  | .error e => finish_transaction env stateRoot r lock .failed (error_outcome e.message)
      ⟨.failed, .failed, false, none, none, none, none, none⟩
  | .ok v =>
    match v.reusable r.cancelled.isSome with
    | none => finish_transaction env stateRoot r lock .failed (failed_outcome v r.cancelled)
        ⟨.failed, .failed, v.preflight.approved,
          v.snapshot.candidate.map fun candidate => candidate.document.executionId,
          v.snapshot.projectInput, v.snapshot.projectOutput, r.cancelled, none⟩
    | some (candidate, evidence, tree) =>
      finish_transaction env stateRoot r lock .reused (reused_outcome candidate evidence tree)
        ⟨.reused, .reused, true, some candidate.document.executionId, v.snapshot.projectInput,
          v.snapshot.projectOutput, none, none⟩

/-- The snapshot of the project and the creation of the record. -/
def begin_transaction (binding : LoadedBinding) (attestation : LoadedAttestation)
    (lock : StoredBuildLock) : StoreProg (List Str) := do
  let before ← Prog.lift r.projectBefore
  let _ ← beginExecutionRecord (env.part 1) stateRoot
    (r.record binding attestation lock.document.key before)
  return before

/-- From the acquisition of the lock on. -/
def transact (binding : LoadedBinding) (attestation : LoadedAttestation) :
    StoreProg ReuseTransactionReport := do
  let acquired ← ((acquireBuildLock (env.part 0) stateRoot (r.lock binding)).attempt :
    StoreProg (Except StoreFailure StoredBuildLock))
  match acquired with
  | .error _ => return not_attempted
  | .ok lock => do
    let begun ← ((begin_transaction env stateRoot r binding attestation lock).attempt :
      StoreProg (Except StoreFailure (List Str)))
    match begun with
    | .error _ => do
      let _ ← releaseBuildLock (env.part 2) stateRoot lock.document.expected
      return not_attempted
    | .ok before => do
      let verified ← ((verify_under_lock r { env with toEnvironment := env.part 3 } stateRoot binding
        attestation before).attempt : StoreProg (Except StoreFailure Verification))
      conclude env stateRoot r lock verified

/-- `runReuseTransaction`. -/
def runReuseTransaction : StoreProg ReuseTransactionReport :=
  if r.aborted || !r.inside then return not_attempted
  else
    match r.initialBinding, r.initialAttestation with
    | some binding, some attestation => transact env stateRoot r binding attestation
    | _, _ => return not_attempted

end Program

end LeanBun.Reuse
