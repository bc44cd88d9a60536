/-
Coordinators and recovery.

A coordinator acquires the build lock, begins its execution record, does its work,
finalizes the record and releases the lock. A controlled build and a reuse transaction
differ in what they do between these steps, which is a parameter here. A recovery is run
for the id of an execution: when the process that its record names is gone, it releases
the lock of a terminal record, or finalizes a running one and then releases its lock.
-/
import LeanBun.Execution.BuildLock

set_option autoImplicit false

namespace LeanBun.Execution

open LeanBun.Lib LeanBun.Core

/-! ## Coordinators -/

/-- What a coordinator knows before it starts; its project and its image are those of the
binding. -/
structure CoordinatorInput where
  lock : LockIdentity
  bindingSha256 : JsString
  attestationSha256 : JsString
  dependencyArtifactBefore : JsString
  projectProtectedBefore : JsString
  projectProtectedRecordCount : ℤ
  startedAt : JsString

/-- The input of `beginExecutionRecord` under a lock. -/
def CoordinatorInput.identity (input : CoordinatorInput) (profileSha256 reusePolicySha256 :
    Option JsString) (buildLockKey : JsString) : ExecutionIdentity where
  executionId := input.lock.executionId
  projectId := input.lock.projectId
  projectPath := input.lock.projectPath
  target := input.lock.target
  imageId := input.lock.imageId
  bindingSha256 := input.bindingSha256
  attestationSha256 := input.attestationSha256
  profileSha256 := profileSha256
  reusePolicySha256 := reusePolicySha256
  dependencyArtifactBefore := input.dependencyArtifactBefore
  buildLockKey := some buildLockKey
  coordinatorPid := some input.lock.coordinatorPid
  projectProtectedBefore := some input.projectProtectedBefore
  projectProtectedRecordCount := some input.projectProtectedRecordCount
  startedAt := input.startedAt

/-- How the work ends: processes are left behind, and nothing is finalized, or there is an
outcome. -/
inductive Work where
  | unreaped
  | finished (status : TerminalStatus) (finishedAt : JsString)
      (outcome : ControlledBuildExecutionOutcomeV1)

/-- What a coordinator has done, with the release where there was one. -/
inductive CoordinatorReport where
  | not_acquired
  | record_failed (release : ReleaseStatus)
  | left_running
  | finished (release : ReleaseStatus)

/-- `expected` of a release: the document of the lock. -/
def BuildExecutionLockV1.expected (lock : BuildExecutionLockV1) : ExpectedLock :=
  ⟨lock.key, lock.executionId, lock.projectId, lock.imageId⟩

/-- Bookkeeping: the work begins, and ends, under the lock. -/
def hold (env : Environment) (key : Option JsString) : StoreProg Unit :=
  .write .quiet fun s => { s with holding := Function.update s.holding env.call key }

/-- The durable steps of a coordinator. `prepared` says whether what comes before
`beginExecutionRecord` in its `try` succeeds. -/
def run_execution (env : Environment) (stateRoot : JsString) (input : CoordinatorInput)
    (profileSha256 reusePolicySha256 : Option JsString) (prepared : Bool) (work : Work) :
    StoreProg CoordinatorReport := do
  let acquired ← ((acquireBuildLock (env.part 0) stateRoot input.lock).attempt :
    StoreProg (Except StoreFailure StoredBuildLock))
  match acquired with
  | .error _ => return .not_acquired
  | .ok lock => do
    hold env (some lock.document.key)
    let begun ← ((if prepared then beginExecutionRecord (env.part 1) stateRoot
          (input.identity profileSha256 reusePolicySha256 lock.document.key)
        else .fail (.node .other [])).attempt :
      StoreProg (Except StoreFailure StoredExecutionRecord))
    match begun with
    | .error _ => do
      hold env none
      let released ← releaseBuildLock (env.part 2) stateRoot lock.document.expected
      return .record_failed released
    | .ok _ =>
      match work with
      | .unreaped => do
        let _ ← loadExecutionRecord (env.part 3) stateRoot input.lock.executionId
        return .left_running
      | .finished status finishedAt outcome => do
        let _ ← finalizeExecutionRecord (env.part 4) stateRoot input.lock.executionId status
          finishedAt outcome
        hold env none
        let released ← releaseBuildLock (env.part 5) stateRoot lock.document.expected
        return .finished released

/-- `runControlledBuildProbe`, from the acquisition on. -/
def runControlledBuildProbe (env : Environment) (stateRoot : JsString) (input : CoordinatorInput)
    (profileSha256 : JsString) (work : Work) : StoreProg CoordinatorReport :=
  run_execution env stateRoot input (some profileSha256) none true work

/-- `runReuseTransaction`, from the acquisition on; the snapshot of the project comes
before its record. -/
def runReuseTransaction (env : Environment) (stateRoot : JsString) (input : CoordinatorInput)
    (reusePolicySha256 : JsString) (snapshot : Bool) (status : TerminalStatus)
    (finishedAt : JsString) (outcome : ControlledBuildExecutionOutcomeV1) :
    StoreProg CoordinatorReport :=
  run_execution env stateRoot input none (some reusePolicySha256) snapshot
    (.finished status finishedAt outcome)

/-! ## Recovery -/

/-- `CoordinatorProcessState`. -/
inductive CoordinatorProcessState where
  | active
  | absent
  | unknown
deriving DecidableEq

/-- The facts of `recoveryEvidenceStable`, and the artifacts after the execution. -/
structure RecoveryFacts where
  projectProtectedRecordsStable : Bool
  dependencyArtifactsStable : Bool
  bindingStable : Bool
  attestationStable : Bool
  inspectionStable : Bool
  dependencyArtifactAfter : Option JsString
  dependencyArtifactCount : Option ℤ

/-- `recoveryEvidenceStable`. -/
def recoveryEvidenceStable (facts : RecoveryFacts) : Bool :=
  facts.projectProtectedRecordsStable && facts.dependencyArtifactsStable && facts.bindingStable &&
    facts.attestationStable && facts.inspectionStable

/-- What a recovery finds outside of the state root: whether the state of a process can be
told, whether the project is where the record says, whether no process works in it,
whether there is a dependency provider, the evidence unless it cannot be read, and the
time. -/
structure RecoveryAudit where
  process_state_known : Bool
  project_canonical : Bool
  project_clear : Bool
  provider : Bool
  evidence : Option RecoveryFacts
  finishedAt : JsString

/-- The codes of the last diagnostic. -/
inductive RecoveryDiagnostic where
  | EXECUTION_RECOVERY_BLOCKED
  | BUILD_LOCK_CONFLICT
  | EXECUTION_COORDINATOR_ACTIVE
  | EXECUTION_PROJECT_PROCESS_ACTIVE
  | BUILD_LOCK_RELEASED
deriving DecidableEq

/-- The status of `ExecutionRecoveryReport`. -/
inductive RecoveryStatus where
  | recovered
  | lock_released
  | blocked
deriving DecidableEq

structure ExecutionRecoveryReport where
  status : RecoveryStatus
  diagnostic : RecoveryDiagnostic

def blocked (diagnostic : RecoveryDiagnostic) : ExecutionRecoveryReport := ⟨.blocked, diagnostic⟩

/-- `coordinatorProcessState`: a process that is there answers the signal. -/
def coordinatorProcessState (audit : RecoveryAudit) (pid : ℤ) : StoreProg CoordinatorProcessState :=
  .read .quiet fun s =>
    .ok (if !audit.process_state_known then .unknown else if s.gone pid then .absent else .active)

/-- `lockMatches`. -/
def lock_matches (record : ControlledBuildExecutionRecordV1) (lock : BuildExecutionLockV1) : Bool :=
  decide (some lock.key = record.buildLockKey) && decide (lock.executionId = record.executionId) &&
    decide (lock.projectId = record.projectId) && decide (lock.projectPath = record.projectPath) &&
    decide (lock.imageId = record.imageId) && decide (lock.target = record.target) &&
    decide (some lock.coordinatorPid = record.coordinatorPid)

/-- A decimal integer as a string. -/
def js_integer (value : ℤ) : JsString := js_text (integer_text value)

/-- The outcome that a recovery writes. -/
def recovery_outcome (pid : ℤ) (facts : RecoveryFacts) : ControlledBuildExecutionOutcomeV1 where
  buildExecution := .failed
  lakeExitCode := none
  projectProtectedRecordsStable := some facts.projectProtectedRecordsStable
  dependencyArtifactAfter := facts.dependencyArtifactAfter
  dependencyArtifactCount := facts.dependencyArtifactCount
  bindingStable := some facts.bindingStable
  attestationStable := some facts.attestationStable
  inspectionStable := some facts.inspectionStable
  terminationReason := none
  triggerSignal := none
  processGroupId := none
  terminationEscalated := none
  processGroupReaped := none
  reuseEvidence := none
  failureStage := some .recovery
  failureMessage := some (js "explicit recovery after coordinator pid " ++ (js_integer pid ++
    (js " was absent; evidence=" ++
      js (if recoveryEvidenceStable facts then "stable" else "drifted"))))
  reusedFromExecutionId := none

/-- The end of a recovery of a running record: it is finalized, then its lock released. -/
def recover_running (env : Environment) (stateRoot executionId : JsString) (audit : RecoveryAudit)
    (pid : ℤ) (lock : BuildExecutionLockV1) : StoreProg ExecutionRecoveryReport := do
  if !audit.provider then return blocked .EXECUTION_RECOVERY_BLOCKED
  else
    match audit.evidence with
    | none => .fail (.node .other [])
    | some facts => do
      let _ ← finalizeExecutionRecord (env.part 0) stateRoot executionId .failed audit.finishedAt
        (recovery_outcome pid facts)
      let _ ← releaseBuildLock (env.part 1) stateRoot lock.expected
      return ⟨.recovered, .BUILD_LOCK_RELEASED⟩

/-- What a recovery does once the coordinator and the project are found idle. -/
def recover_idle (env : Environment) (stateRoot executionId : JsString) (audit : RecoveryAudit)
    (record : ControlledBuildExecutionRecordV1) (key : JsString) (pid : ℤ)
    (lock : Option StoredBuildLock) : StoreProg ExecutionRecoveryReport := do
  if record.status ≠ .running then do
    let _ ← releaseBuildLock (env.part 0) stateRoot
      ⟨key, record.executionId, record.projectId, record.imageId⟩
    return ⟨.lock_released, .BUILD_LOCK_RELEASED⟩
  else
    match lock with
    | none => return blocked .EXECUTION_RECOVERY_BLOCKED
    | some lock => recover_running (env.part 1) stateRoot executionId audit pid lock.document

/-- A recovery of a record with its lock key and its process. -/
def recover_record (env : Environment) (stateRoot executionId : JsString) (audit : RecoveryAudit)
    (record : ControlledBuildExecutionRecordV1) (key : JsString) (pid : ℤ) :
    StoreProg ExecutionRecoveryReport := do
  let lock ← loadBuildLock (env.part 0) stateRoot key no_note
  if lock.any fun lock => !lock_matches record lock.document then
    return blocked .BUILD_LOCK_CONFLICT
  else if record.status = .running ∧
      (record.projectProtectedBefore = none ∨ record.projectProtectedRecordCount = none) then
    return blocked .EXECUTION_RECOVERY_BLOCKED
  else do
    let state ← coordinatorProcessState audit pid
    if state = .active then return blocked .EXECUTION_COORDINATOR_ACTIVE
    else if state = .unknown then return blocked .EXECUTION_RECOVERY_BLOCKED
    else if !audit.project_canonical then return blocked .EXECUTION_RECOVERY_BLOCKED
    else if !audit.project_clear then return blocked .EXECUTION_PROJECT_PROCESS_ACTIVE
    else recover_idle (env.part 1) stateRoot executionId audit record key pid lock

/-- `recoverStaleExecution`. -/
def recoverStaleExecution (env : Environment) (stateRoot executionId : JsString)
    (audit : RecoveryAudit) : StoreProg ExecutionRecoveryReport := do
  let stored ← loadExecutionRecord (env.part 0) stateRoot executionId
  match stored.document.buildLockKey, stored.document.coordinatorPid with
  | some key, some pid =>
    recover_record (env.part 1) stateRoot executionId audit stored.document key pid
  | _, _ => return blocked .EXECUTION_RECOVERY_BLOCKED

end LeanBun.Execution
