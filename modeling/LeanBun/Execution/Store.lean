/-
The execution record store.

A record lives at `executions/<id>.json`. `beginExecutionRecord` and
`finalizeExecutionRecord` take the lock file `<id>.lock` by exclusive creation, write a
temporary file and rename it over the record, and remove the lock file on every path out.
Each call to the file system is one step. It may fail, which the environment of a call
decides, and what a process does in memory goes with the step before. That store
directories are direct directories inside the state root is part of `inspect_directory`,
which can fail for any other reason too.
-/
import LeanBun.Execution.Document
import LeanBun.Lib.Durable

set_option autoImplicit false

namespace LeanBun.Execution

open LeanBun.Lib LeanBun.Core

/-! ## Errors -/

/-- `error.code` of Node. -/
inductive NodeCode where
  | ENOENT
  | EEXIST
  | other
deriving DecidableEq

/-- The codes of `ExecutionRecordStoreError` and of `BuildLockStoreError`. -/
inductive StoreCode where
  | BUSY
  | CONFLICT
  | FAILED
deriving DecidableEq

/-- What a store function throws: an error of Node, or one of its own. -/
inductive StoreFailure where
  | node (code : NodeCode) (message : JsString)
  | store (code : StoreCode) (message : JsString)
deriving DecidableEq

def StoreFailure.message : StoreFailure → JsString
  | .node _ message => message
  | .store _ message => message

/-! ## The files -/

/-- A record file: its document, unless the text is not complete, and whether its mode
is `0444`. -/
structure StoredFile where
  document : Option ControlledBuildExecutionRecordV1
  read_only : Bool

/-- The files of one execution. A lock file is empty; the call that created it tells it
from another file at its path. Every call has a temporary name of its own, which is what
`crypto.randomUUID` is for. `published` is not a file: it lists the documents that were
renamed to the record path, with the calls that did it. -/
structure ExecutionFiles where
  lock : Option ℕ
  record : Option StoredFile
  temporaries : ℕ → Option StoredFile
  published : List (ℕ × ControlledBuildExecutionRecordV1)

/-- A build lock file, with the call that created it. -/
structure LockFile where
  creator : ℕ
  document : Option BuildExecutionLockV1
  read_only : Bool

/-- The state root, and the processes that are gone. The last two fields are bookkeeping
for statements: which calls stand between the read and the unlink of a release, and which
hold a build lock that they acquired. -/
structure StateRoot where
  executions_directory : Bool
  executions : JsString → ExecutionFiles
  build_locks_directory : Bool
  build_locks : JsString → Option LockFile
  gone : ℤ → Bool
  releasing : ℕ → Option JsString
  holding : ℕ → Option JsString

/-- A change of the files of one execution. -/
def StateRoot.at_execution (s : StateRoot) (id : JsString) (f : ExecutionFiles → ExecutionFiles) :
    StateRoot :=
  { s with executions := Function.update s.executions id (f (s.executions id)) }

@[simp] theorem StateRoot.at_execution_self (s : StateRoot) (id : JsString)
    (f : ExecutionFiles → ExecutionFiles) :
    (s.at_execution id f).executions id = f (s.executions id) := Function.update_self _ _ _

theorem StateRoot.at_execution_other (s : StateRoot) {id other : JsString} (h : other ≠ id)
    (f : ExecutionFiles → ExecutionFiles) :
    (s.at_execution id f).executions other = s.executions other := Function.update_of_ne h _ _

/-- A change of one build lock. -/
def StateRoot.at_lock (s : StateRoot) (key : JsString) (lock : Option LockFile) : StateRoot :=
  { s with build_locks := Function.update s.build_locks key lock }

/-- The text of a file. -/
def StoredFile.text (file : StoredFile) : Str :=
  (file.document.map ControlledBuildExecutionRecordV1.canonical_text).getD []

/-! ## Steps -/

/-- What a step does to a build lock, for the statements about it. -/
inductive Label where
  | quiet
  | lock_created (key : JsString)
  | lock_released (key executionId : JsString)

/-- The file system operations. -/
inductive Operation where
  | mkdir
  | inspect_directory
  | sync_parent
  | open_lock
  | unlink_lock
  | lstat
  | read_file
  | open_temporary
  | write
  | sync
  | chmod
  | rename
  | sync_directory
  | unlink_temporary

/-- What is outside of a call: its number, which operations fail and with which message,
and the library functions whose results it takes. -/
structure Environment where
  call : ℕ
  faults : List ℕ → Operation → Option JsString
  date_parse : JsString → Option ℤ
  node_message : NodeCode → JsString

/-- The environment of a part of a call. -/
def Environment.part (env : Environment) (k : ℕ) : Environment :=
  { env with faults := fun path => env.faults (k :: path) }

abbrev StoreProg := Prog StateRoot Label StoreFailure

def throw_store {α : Type} (code : StoreCode) (message : JsString) : StoreProg α :=
  .fail (.store code message)

/-- An error of Node that is not a fault. -/
def Environment.node (env : Environment) (code : NodeCode) : StoreFailure :=
  .node code (env.node_message code)

/-- An operation with a label: a fault has no effect. -/
def Environment.perform_labelled {α : Type} (env : Environment) (op : Operation)
    (label : StateRoot → Label) (f : StateRoot → Except StoreFailure α × StateRoot) : StoreProg α :=
  match env.faults [] op with
  | some message => .fail (.node .other message)
  | none => .atomic label f

/-- An operation. -/
def Environment.perform {α : Type} (env : Environment) (op : Operation)
    (f : StateRoot → Except StoreFailure α × StateRoot) : StoreProg α :=
  env.perform_labelled op (fun _ => .quiet) f

/-- An operation that changes nothing. -/
def Environment.inspect {α : Type} (env : Environment) (op : Operation)
    (f : StateRoot → Except StoreFailure α) : StoreProg α :=
  env.perform op fun s => (f s, s)

/-- An operation that always succeeds unless it is a fault. -/
def Environment.change (env : Environment) (op : Operation) (f : StateRoot → StateRoot) :
    StoreProg Unit :=
  env.perform op fun s => (.ok (), f s)

/-- `.catch(() => undefined)`. -/
def ignore (p : StoreProg Unit) : StoreProg Unit := do
  let _ ← (p.attempt : StoreProg (Except StoreFailure Unit))
  return ()

/-! ## Paths -/

/-- `join`. -/
def join (directory name : JsString) : JsString := directory ++ (js "/" ++ name)

def executions_path (stateRoot : JsString) : JsString := join stateRoot (js "executions")

def record_path (stateRoot id : JsString) : JsString :=
  join (executions_path stateRoot) (id ++ js ".json")

def record_lock_path (stateRoot id : JsString) : JsString :=
  join (executions_path stateRoot) (id ++ js ".lock")

/-! ## Reading -/

/-- The `mkdir` of `prepareExecutionDirectory`, with whether it made the directory. -/
def make_executions_directory (env : Environment) (create : Bool) : StoreProg Bool :=
  if create then env.perform .mkdir fun s =>
    (.ok (!s.executions_directory), { s with executions_directory := true })
  else .done false

/-- `prepareExecutionDirectory`. -/
def prepareExecutionDirectory (env : Environment) (stateRoot : JsString) (create : Bool) :
    StoreProg Unit := do
  let created ← make_executions_directory env create
  env.inspect .inspect_directory fun s =>
    if s.executions_directory then .ok ()
    else if create then .error (env.node .ENOENT)
    else .error (.store .CONFLICT
      (js "execution record store does not exist: " ++ executions_path stateRoot))
  if created then env.inspect .sync_parent fun _ => .ok ()
  else pure ()

/-- The `lstat` of `readRecord`. -/
def inspect_record (env : Environment) (path id : JsString) : StoreProg Unit :=
  env.inspect .lstat fun s =>
    match (s.executions id).record with
    | none => .error (env.node .ENOENT)
    | some file =>
      if 64 * 1024 < byte_len file.text then
        .error (.store .CONFLICT (js "execution record is not a bounded regular file: " ++ path))
      else .ok ()

/-- The `readFile` of `readRecord`, with `JSON.parse` and `validRecord`. A file that is
not there any more is an unreadable one. -/
def read_record (env : Environment) (path id : JsString) :
    StoreProg ControlledBuildExecutionRecordV1 :=
  env.inspect .read_file fun s =>
    match ((s.executions id).record).bind StoredFile.document with
    | none => .error (.store .CONFLICT (js "execution record is unreadable: " ++ path))
    | some document =>
      if valid_record env.date_parse document then .ok document
      else .error (.store .CONFLICT (js "execution record schema is invalid: " ++ path))

/-- `readRecord`. -/
def readRecord (env : Environment) (stateRoot id : JsString) :
    StoreProg ControlledBuildExecutionRecordV1 := do
  inspect_record env (record_path stateRoot id) id
  read_record env (record_path stateRoot id) id

/-- `StoredExecutionRecord`. -/
structure StoredExecutionRecord where
  path : JsString
  sha256 : JsString
  document : ControlledBuildExecutionRecordV1

/-- `verifiedStoredRecord`. The comparison of the two texts is one of the documents. -/
def verifiedStoredRecord (env : Environment) (stateRoot id : JsString)
    (expected : ControlledBuildExecutionRecordV1) : StoreProg StoredExecutionRecord := do
  let document ← readRecord (env.part 0) stateRoot id
  if document ≠ expected then
    throw_store .FAILED (js "execution record failed immediate readback verification: " ++
      record_path stateRoot id)
  else do
    (env.part 1).inspect .lstat fun s =>
      match (s.executions id).record with
      | none => .error (env.node .ENOENT)
      | some file =>
        if file.read_only then .ok ()
        else .error (.store .FAILED (js "execution record mode is " ++ js "600" ++
          js ", expected 444: " ++ record_path stateRoot id))
    return ⟨record_path stateRoot id, hash_text expected.canonical_text, document⟩

/-- `ENOENT` of the record is reported as its absence. -/
def missing_record (stateRoot executionId : JsString) : StoreFailure → StoreFailure
  | .node .ENOENT _ => .store .CONFLICT
      (js "execution record does not exist: " ++ record_path stateRoot executionId)
  | e => e

/-- `loadExecutionRecord`. -/
def loadExecutionRecord (env : Environment) (stateRoot executionId : JsString) :
    StoreProg StoredExecutionRecord := do
  if !execution_id_pattern executionId then
    throw_store .FAILED (js "execution id is not a canonical UUID")
  else do
    prepareExecutionDirectory (env.part 0) stateRoot false
    let document ← (readRecord (env.part 1) stateRoot executionId).map_error
      (missing_record stateRoot executionId)
    verifiedStoredRecord (env.part 2) stateRoot executionId document

/-! ## Writing -/

/-- `open(lock, O_WRONLY | O_CREAT | O_EXCL | O_NOFOLLOW)`, with its `EEXIST`. -/
def open_lock (env : Environment) (id busy : JsString) : StoreProg Unit :=
  env.perform .open_lock fun s =>
    match (s.executions id).lock with
    | some _ => (.error (.store .BUSY busy), s)
    | none => (.ok (), s.at_execution id fun files => { files with lock := some env.call })

/-- `unlink(lock)`. -/
def unlink_lock (env : Environment) (id : JsString) : StoreProg Unit :=
  env.change .unlink_lock fun s => s.at_execution id fun files => { files with lock := none }

/-- A change of the temporary file of the call. -/
def set_temporary (env : Environment) (id : JsString) (file : Option StoredFile) (s : StateRoot) :
    StateRoot :=
  s.at_execution id fun files =>
    { files with temporaries := Function.update files.temporaries env.call file }

/-- `unlink(temporary)`. -/
def unlink_temporary (env : Environment) (id : JsString) : StoreProg Unit :=
  env.change .unlink_temporary (set_temporary env id none)

/-- `rename(temporary, target)`. -/
def rename_temporary (env : Environment) (id : JsString)
    (document : ControlledBuildExecutionRecordV1) : StoreProg Unit :=
  env.perform .rename fun s =>
    match (s.executions id).temporaries env.call with
    | none => (.error (env.node .ENOENT), s)
    | some file => (.ok (), s.at_execution id fun files =>
        { files with
          record := some file
          temporaries := Function.update files.temporaries env.call none
          published := files.published ++ [(env.call, document)] })

/-- From the creation of the temporary file to the rename. -/
def stage (env : Environment) (id : JsString) (document : ControlledBuildExecutionRecordV1) :
    StoreProg Unit := do
  env.perform .open_temporary fun s =>
    match (s.executions id).temporaries env.call with
    | some _ => (.error (env.node .EEXIST), s)
    | none => (.ok (), set_temporary env id (some ⟨none, false⟩) s)
  env.change .write (set_temporary env id (some ⟨some document, false⟩))
  env.inspect .sync fun _ => .ok ()
  env.change .chmod (set_temporary env id (some ⟨some document, true⟩))
  (env.part 0).inspect .sync fun _ => .ok ()
  rename_temporary env id document

/-- The error that leaves the `catch` of a transition. -/
def caught (on_exists : StoreCode) : StoreFailure → StoreFailure
  | .node .EEXIST message => .store on_exists message
  | .node _ message => .store .FAILED message
  | .store code message => .store code message

/-- The common body of `beginExecutionRecord` and `finalizeExecutionRecord`: the lock
file around `prepare`, which decides on the document, and its publication. -/
def transition (env : Environment) (stateRoot id busy : JsString) (on_exists : StoreCode)
    (prepare : StoreProg ControlledBuildExecutionRecordV1) : StoreProg StoredExecutionRecord := do
  let opened ← ((open_lock env id busy).attempt : StoreProg (Except StoreFailure Unit))
  match opened with
  | .error e => do
    ignore (unlink_temporary env id)
    .fail (caught on_exists e)
  | .ok () => do
    let staged ← ((do
      let document ← prepare
      stage (env.part 1) id document
      return document).attempt : StoreProg (Except StoreFailure ControlledBuildExecutionRecordV1))
    match staged with
    | .error e => do
      ignore (unlink_temporary env id)
      ignore (unlink_lock env id)
      .fail (caught on_exists e)
    | .ok document => do
      let verified ← ((do
        env.inspect .sync_directory fun _ => .ok ()
        verifiedStoredRecord (env.part 2) stateRoot id document).attempt :
          StoreProg (Except StoreFailure StoredExecutionRecord))
      ignore (unlink_lock env id)
      .lift (verified.mapError (caught on_exists))

/-- What `beginExecutionRecord` asks of its input. -/
def valid_begin_input (input : ExecutionIdentity) : Bool :=
  execution_id_pattern input.executionId &&
  [input.imageId, input.bindingSha256, input.attestationSha256,
    input.dependencyArtifactBefore].all sha_pattern &&
  valid_policy input.profileSha256 input.reusePolicySha256

/-- The first steps of `beginExecutionRecord` under its lock: there must be no record. -/
def prepare_begin (env : Environment) (stateRoot : JsString) (input : ExecutionIdentity) :
    StoreProg ControlledBuildExecutionRecordV1 :=
  env.inspect .lstat fun s =>
    match (s.executions input.executionId).record with
    | some _ => .error (.store .CONFLICT
        (js "execution record already exists: " ++ record_path stateRoot input.executionId))
    | none => .ok input.started

/-- `beginExecutionRecord`. -/
def beginExecutionRecord (env : Environment) (stateRoot : JsString) (input : ExecutionIdentity) :
    StoreProg StoredExecutionRecord := do
  if !valid_begin_input input then
    throw_store .FAILED (js "execution identity contains an invalid UUID or SHA-256 value")
  else do
    prepareExecutionDirectory (env.part 0) stateRoot true
    transition (env.part 1) stateRoot input.executionId
      (js "execution record creation is already locked: " ++
        record_lock_path stateRoot input.executionId) .CONFLICT
      (prepare_begin ((env.part 1).part 0) stateRoot input)

/-- The first steps of `finalizeExecutionRecord` under its lock: there must be a running
record. -/
def prepare_finalize (env : Environment) (stateRoot executionId : JsString) (status : TerminalStatus)
    (finishedAt : JsString) (outcome : ControlledBuildExecutionOutcomeV1) :
    StoreProg ControlledBuildExecutionRecordV1 := do
  let running ← readRecord env stateRoot executionId
  if running.executionId ≠ executionId ∨ running.status ≠ .running ∨ running.outcome ≠ none then
    throw_store .CONFLICT
      (js "execution record is not in the running state: " ++ record_path stateRoot executionId)
  else return running.finished status finishedAt outcome

/-- `finalizeExecutionRecord`. -/
def finalizeExecutionRecord (env : Environment) (stateRoot executionId : JsString)
    (status : TerminalStatus) (finishedAt : JsString) (outcome : ControlledBuildExecutionOutcomeV1) :
    StoreProg StoredExecutionRecord := do
  if !execution_id_pattern executionId || decide (outcome.buildExecution ≠ status) then
    throw_store .FAILED (js "terminal execution status and outcome are inconsistent")
  else do
    prepareExecutionDirectory (env.part 0) stateRoot true
    transition (env.part 1) stateRoot executionId
      (js "execution record transition is already locked: " ++
        record_lock_path stateRoot executionId) .FAILED
      (prepare_finalize ((env.part 1).part 0) stateRoot executionId status finishedAt outcome)

end LeanBun.Execution
