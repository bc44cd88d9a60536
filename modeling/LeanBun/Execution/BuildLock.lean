/-
The build lock.

A build of a project against an image holds the file `build-locks/<key>.lock`, which is
taken by exclusive creation and names the execution that holds it. The document is written
through the handle of the creation, so it goes to the file that was created, wherever the
path leads by then. A release reads the file and removes it by its path.
-/
import LeanBun.Execution.Store

set_option autoImplicit false

namespace LeanBun.Execution

open LeanBun.Lib LeanBun.Core

/-- `StoredBuildLock`. -/
structure StoredBuildLock where
  path : JsString
  sha256 : JsString
  document : BuildExecutionLockV1

/-- `ReleasedBuildLock`, its status. -/
inductive ReleaseStatus where
  | released
  | already_released
deriving DecidableEq

def build_locks_path (stateRoot : JsString) : JsString := join stateRoot (js "build-locks")

def build_lock_path (stateRoot key : JsString) : JsString :=
  join (build_locks_path stateRoot) (key ++ js ".lock")

@[simp] theorem StateRoot.at_lock_self (s : StateRoot) (key : JsString) (lock : Option LockFile) :
    (s.at_lock key lock).build_locks key = lock := Function.update_self _ _ _

theorem StateRoot.at_lock_other (s : StateRoot) {key other : JsString} (h : other ≠ key)
    (lock : Option LockFile) : (s.at_lock key lock).build_locks other = s.build_locks other :=
  Function.update_of_ne h _ _

/-- The text of a lock file. -/
def LockFile.text (file : LockFile) : Str :=
  (file.document.map BuildExecutionLockV1.canonical_text).getD []

/-! ## Reading -/

/-- The `mkdir` of `executionLockDirectory`. -/
def make_lock_directory (env : Environment) (create : Bool) : StoreProg Bool :=
  if create then env.perform .mkdir fun s =>
    (.ok (!s.build_locks_directory), { s with build_locks_directory := true })
  else .done false

/-- `executionLockDirectory`, with whether the directory is there: without `create` its
absence is the one error that `loadBuildLock` turns into `undefined`. -/
def executionLockDirectory (env : Environment) (create : Bool) : StoreProg Bool := do
  let created ← make_lock_directory env create
  let present ← env.inspect .inspect_directory fun s =>
    if s.build_locks_directory then .ok true
    else if create then .error (env.node .ENOENT)
    else .ok false
  if created then do
    env.inspect .sync_parent fun _ => .ok ()
    return present
  else return present

/-- The `lstat` of `readLock`: nothing where there is no file, else whether its mode is
`0444`. -/
def inspect_lock (env : Environment) (path key : JsString) : StoreProg (Option Bool) :=
  env.inspect .lstat fun s =>
    match s.build_locks key with
    | none => .ok none
    | some file =>
      if 32 * 1024 < byte_len file.text then
        .error (.store .CONFLICT (js "build lock is not a bounded regular file: " ++ path))
      else .ok (some file.read_only)

/-- What the rest of `readLock` makes of the file that `readFile` finds. -/
def read_lock_result (env : Environment) (path : JsString) (read_only : Bool)
    (file : Option LockFile) : Except StoreFailure BuildExecutionLockV1 :=
  match file.bind LockFile.document with
  | none => .error (.store .CONFLICT (js "build lock is unreadable: " ++ path))
  | some document =>
    if !valid_lock env.date_parse document then
      .error (.store .CONFLICT (js "build lock schema is invalid: " ++ path))
    else if !read_only then
      .error (.store .CONFLICT (js "build lock mode is 600, expected 444: " ++ path))
    else .ok document

/-- The `readFile` of `readLock`. The note is the bookkeeping of the caller. -/
def read_lock (env : Environment) (path key : JsString) (read_only : Bool)
    (note : BuildExecutionLockV1 → StateRoot → StateRoot) : StoreProg BuildExecutionLockV1 :=
  env.perform .read_file fun s =>
    match read_lock_result env path read_only (s.build_locks key) with
    | .error e => (.error e, s)
    | .ok document => (.ok document, note document s)

/-- `loadBuildLock`. -/
def loadBuildLock (env : Environment) (stateRoot key : JsString)
    (note : BuildExecutionLockV1 → StateRoot → StateRoot) : StoreProg (Option StoredBuildLock) := do
  if !sha_pattern key then throw_store .FAILED (js "build lock key is not SHA-256")
  else do
    let present ← executionLockDirectory (env.part 0) false
    if !present then return none
    else do
      let mode ← inspect_lock env (build_lock_path stateRoot key) key
      match mode with
      | none => return none
      | some read_only => do
        let document ← read_lock env (build_lock_path stateRoot key) key read_only note
        return some ⟨build_lock_path stateRoot key, hash_text document.canonical_text, document⟩

/-- Nothing to note. -/
def no_note (_ : BuildExecutionLockV1) (s : StateRoot) : StateRoot := s

/-! ## Acquiring -/

/-- `open(target, O_WRONLY | O_CREAT | O_EXCL | O_NOFOLLOW)`: whether the file was created. -/
def create_lock (env : Environment) (key : JsString) : StoreProg Bool :=
  env.perform_labelled .open_lock
    (fun s => if (s.build_locks key).isNone then .lock_created key else .quiet) fun s =>
      match s.build_locks key with
      | some _ => (.ok false, s)
      | none => (.ok true, s.at_lock key (some ⟨env.call, none, false⟩))

/-- A change of the file that the call created, through its handle. -/
def change_lock (env : Environment) (op : Operation) (key : JsString) (f : LockFile → LockFile) :
    StoreProg Unit :=
  env.change op fun s =>
    match s.build_locks key with
    | some file => if file.creator = env.call then s.at_lock key (some (f file)) else s
    | none => s

/-- `unlink(target)` of `acquireBuildLock`, its error ignored. -/
def unlink_created (env : Environment) (key : JsString) : StoreProg Unit :=
  ignore (env.change .unlink_lock fun s => s.at_lock key none)

/-- The wait for a lock that exists, for some more attempts. -/
def wait_for_owner (env : Environment) (stateRoot key : JsString) (failure : JsString) :
    ℕ → StoreProg StoredBuildLock
  | 0 => throw_store .CONFLICT
      (js "existing build lock did not become readable after bounded publication wait: " ++
        (build_lock_path stateRoot key ++ (js ": " ++ failure)))
  | attempts + 1 => do
    let existing ← ((loadBuildLock (env.part attempts) stateRoot key no_note).attempt :
      StoreProg (Except StoreFailure (Option StoredBuildLock)))
    match existing with
    | .ok (some _) =>
      throw_store .BUSY
        (js "project/image build lock is already held: " ++ build_lock_path stateRoot key)
    | .ok none => wait_for_owner env stateRoot key failure attempts
    | .error e => wait_for_owner env stateRoot key e.message attempts

/-- From the creation of the file to its readback. -/
def write_lock (env : Environment) (stateRoot : JsString) (document : BuildExecutionLockV1) :
    StoreProg StoredBuildLock := do
  change_lock env .write document.key fun file => { file with document := some document }
  env.inspect .sync fun _ => .ok ()
  change_lock env .chmod document.key fun file => { file with read_only := true }
  (env.part 0).inspect .sync fun _ => .ok ()
  env.inspect .sync_directory fun _ => .ok ()
  let verified ← loadBuildLock (env.part 1) stateRoot document.key no_note
  match verified with
  | none =>
    throw_store .FAILED
      (js "build lock failed immediate readback: " ++ build_lock_path stateRoot document.key)
  | some verified =>
    if verified.document = document then return verified
    else
      throw_store .FAILED
        (js "build lock failed immediate readback: " ++ build_lock_path stateRoot document.key)

/-- The document of a lock. -/
def lock_document (input : LockIdentity) : BuildExecutionLockV1 :=
  { input with key := build_lock_key input.projectId input.imageId }

/-- `acquireBuildLock`. -/
def acquireBuildLock (env : Environment) (stateRoot : JsString) (input : LockIdentity) :
    StoreProg StoredBuildLock := do
  if !valid_lock env.date_parse (lock_document input) then
    throw_store .FAILED (js "build lock identity is invalid or internally inconsistent")
  else do
    let _ ← executionLockDirectory (env.part 0) true
    let created ← (create_lock env (lock_document input).key).map_error (caught .FAILED)
    if created then do
      let written ← ((write_lock (env.part 1) stateRoot (lock_document input)).attempt :
        StoreProg (Except StoreFailure StoredBuildLock))
      match written with
      | .ok stored => return stored
      | .error e => do
        unlink_created env (lock_document input).key
        .fail (caught .FAILED e)
    else wait_for_owner (env.part 2) stateRoot (lock_document input).key [] 100

/-! ## Releasing -/

/-- What `releaseBuildLock` is asked to release. -/
structure ExpectedLock where
  key : JsString
  executionId : JsString
  projectId : JsString
  imageId : JsString

/-- The lock is the expected one. -/
def ExpectedLock.matches_lock (expected : ExpectedLock) (document : BuildExecutionLockV1) : Bool :=
  decide (document.executionId = expected.executionId) &&
    decide (document.projectId = expected.projectId) &&
    decide (document.imageId = expected.imageId)

/-- Bookkeeping: the call is about to unlink the lock that it has read. -/
def note_release (env : Environment) (expected : ExpectedLock) (document : BuildExecutionLockV1)
    (s : StateRoot) : StateRoot :=
  if expected.matches_lock document then
    { s with releasing := Function.update s.releasing env.call (some expected.key) }
  else s

/-- Bookkeeping: the call is not about to unlink any more. -/
def end_release (env : Environment) (s : StateRoot) : StateRoot :=
  { s with releasing := Function.update s.releasing env.call none }

/-- `unlink(existing.path)`, by the path. -/
def unlink_released (env : Environment) (expected : ExpectedLock) : StoreProg Unit :=
  match env.faults [] .unlink_lock with
  | some message => .atomic (fun _ => .quiet) fun s =>
      (.error (.node .other message), end_release env s)
  | none => .atomic
      (fun s => if (s.build_locks expected.key).isSome then
        .lock_released expected.key expected.executionId else .quiet) fun s =>
      match s.build_locks expected.key with
      | none => (.error (env.node .ENOENT), end_release env s)
      | some _ => (.ok (), end_release env (s.at_lock expected.key none))

/-- `releaseBuildLock`. -/
def releaseBuildLock (env : Environment) (stateRoot : JsString) (expected : ExpectedLock) :
    StoreProg ReleaseStatus := do
  if expected.key ≠ build_lock_key expected.projectId expected.imageId then
    throw_store .FAILED (js "expected build lock identity is inconsistent")
  else do
    let existing ← loadBuildLock env stateRoot expected.key (note_release env expected)
    match existing with
    | none => return .already_released
    | some existing =>
      if !expected.matches_lock existing.document then
        throw_store .CONFLICT (js "build lock belongs to another execution: " ++ existing.path)
      else do
        unlink_released env expected
        env.inspect .sync_directory fun _ => .ok ()
        return .released

end LeanBun.Execution
