/-
The generation manager: publish, recover and roll back.

The durable state of one project is a directory with the project lock, the
active record, the retained references, one record for each transaction and one
directory for each generation. Every operation is a program over this state; its
steps are the file operations that are atomic on disk: creating a file, writing
a new one, renaming it into place, removing it. A crash may come between any two.

Reading a record is one step. The `.replace-*.tmp` files, syncs and the modes of
everything but the files of packages are left out: nothing reads them back. Creating a temporary file is assumed to
find a free name.
-/
import LeanBun.Generation.Record
import LeanBun.Generation.Tree
import LeanBun.Lib.Durable

set_option autoImplicit false

namespace LeanBun.Generation

open LeanBun.Lib LeanBun.Core LeanBun.Store

/-! ## The state of a project -/

/-- The four files of a generation. -/
inductive GenerationFile where
  | leanbun_lock
  | lake_manifest
  | runtime_packages
  | generation_meta
deriving DecidableEq

/-- What is on disk of one generation. -/
structure GenerationDirectory where
  files : GenerationFile → Option Str
  packages : Option Tree

/-- The directory of a project below the generation state. -/
structure ProjectState where
  lock : Option Str
  active : Option Str
  retained : Option Str
  transactions : ExecutionId → Option Str
  active_temps : List Str
  generations : ExecutionId → Option GenerationDirectory

/-- A project that the manager has just opened for the first time. -/
def ProjectState.initial : ProjectState := ⟨none, none, none, fun _ => none, [], fun _ => none⟩

def ProjectState.set_transaction (s : ProjectState) (t : ExecutionId) (text : Str) : ProjectState :=
  { s with transactions := Function.update s.transactions t (some text) }

def ProjectState.set_generation (s : ProjectState) (t : ExecutionId)
    (directory : GenerationDirectory) : ProjectState :=
  { s with generations := Function.update s.generations t (some directory) }

/-- The kinds of steps that the manager takes. -/
inductive ManagerStep where
  | Read
  | Lock
  | Transaction
  | Materialize
  | ActiveTemp
  | ActiveRename
  | Retained
  | Release
deriving DecidableEq

abbrev ManagerProg (α : Type) := Prog ProjectState ManagerStep LeanGenerationError α

/-- A check without a step. -/
def check (result : GenerationResult Unit) : ManagerProg Unit := Prog.lift result

/-- `LeanGenerationManagerV1`: its other paths are functions of these. -/
structure LeanGenerationManagerV1 where
  state_root : PathBuf
  project_root : PathBuf
deriving DecidableEq

section Manager

variable (manager : LeanGenerationManagerV1)

/-- `project_id`. -/
def LeanGenerationManagerV1.project_id : ProjectId := Core.project_id manager.project_root

/-- `project_state`. -/
def LeanGenerationManagerV1.project_state : PathBuf :=
  path_join (path_join manager.state_root "projects".toList) manager.project_id.to_string

/-- `generation_root`. -/
def LeanGenerationManagerV1.generation_root (transaction : ExecutionId) : PathBuf :=
  path_join (path_join manager.project_state "generations".toList) transaction.as_str

/-- What `validate_generation_location` accepts. -/
def valid_location (generation : LeanBunGenerationV1) : Bool :=
  decide (generation.project_id = manager.project_id) &&
    path_eq generation.project_root manager.project_root &&
    path_eq generation.generation_root (manager.generation_root generation.transaction_id)

/-- `validate_generation_location`. -/
def validate_generation_location (generation : LeanBunGenerationV1) : ManagerProg Unit :=
  check (if valid_location manager generation = true then .ok ()
    else .error (boundary "generation is not bound to this fixture project/state root"))

end Manager

/-- `inject`. -/
def inject (actual expected : LeanGenerationFaultV1) (stage : String) : ManagerProg Unit :=
  check (if actual = expected then .error ⟨.FaultInjected, "crash fault injected " ++ stage⟩
    else .ok ())

/-! ## Records -/

/-- A record file that may be absent. -/
def read_optional {α : Type} (parse : Str → GenerationResult α) :
    Option Str → GenerationResult (Option α)
  | none => .ok none
  | some text => do
    let text ← stable_read text
    let record ← parse text
    return some record

/-- What `read_transaction_optional` reads. -/
def read_transaction (s : ProjectState) (transaction : ExecutionId) :
    GenerationResult (Option TransactionRecord) :=
  read_optional parse_transaction (s.transactions transaction)

/-- `read_transaction_optional`. -/
def read_transaction_optional (transaction : ExecutionId) : ManagerProg (Option TransactionRecord) :=
  Prog.read .Read fun s => read_transaction s transaction

/-- What `read_active_optional` reads. -/
def read_active (s : ProjectState) : GenerationResult (Option ActiveRecord) :=
  read_optional parse_active s.active

/-- `read_active_optional`. -/
def read_active_optional : ManagerProg (Option ActiveRecord) := Prog.read .Read read_active

/-- The active record of a generation. -/
def active_record (generation : LeanBunGenerationV1) : ActiveRecord :=
  ⟨generation.transaction_id, generation.identity, generation.generation_root⟩

/-- The record names exactly this generation. -/
def names_generation (record : ActiveRecord) (generation : LeanBunGenerationV1) : Bool :=
  decide (record.transaction = generation.transaction_id) &&
    decide (record.generation = generation.identity) &&
    path_eq record.path generation.generation_root

/-- The transaction record of a generation. -/
def transaction_record (generation : LeanBunGenerationV1) (state : LeanGenerationStateV1) :
    TransactionRecord :=
  ⟨generation.transaction_id, generation.project_id, generation.identity, state⟩

/-- `require_exact` on a file that is there. -/
def require_exact (text : Option Str) (expected : Str) (kind : LeanGenerationErrorKind) :
    GenerationResult Unit :=
  match text with
  | none => .error ⟨.Io, "M35 I/O failed"⟩
  | some text => do
    let actual ← stable_read text
    if actual = expected then .ok ()
    else .error ⟨kind, "durable generation bytes differ from identity"⟩

/-! ## The project lock -/

/-- `acquire_lock`. -/
def acquire_lock (generation : LeanBunGenerationV1) : ManagerProg Unit :=
  Prog.atomic (fun _ => .Lock) fun s =>
    match s.lock with
    | some _ => (.error ⟨.LockBusy, "exclusive state file exists"⟩, s)
    | none => (.ok (), { s with lock := some (lock_bytes generation) })

/-- What `release_lock_if_owned` finds: whether there is a lock to remove. -/
def lock_owned (s : ProjectState) (generation : LeanBunGenerationV1) : GenerationResult Bool :=
  match s.lock with
  | none => .ok false
  | some text => do
    let observed ← stable_read text
    if observed = lock_bytes generation then .ok true
    else .error ⟨.OwnershipMismatch, "project lock belongs to another transaction"⟩

/-- `fs::remove_file` of the lock. -/
def remove_lock : ManagerProg Unit :=
  Prog.atomic (fun _ => .Release) fun s =>
    match s.lock with
    | none => (.error ⟨.Io, "M35 I/O failed"⟩, s)
    | some _ => (.ok (), { s with lock := none })

/-- `release_lock_if_owned`. -/
def release_lock_if_owned (generation : LeanBunGenerationV1) : ManagerProg Bool := do
  let owned ← Prog.read .Read fun s => lock_owned s generation
  if owned then
    remove_lock
    return true
  else return false

/-- `release_lock`. -/
def release_lock (generation : LeanBunGenerationV1) : ManagerProg Unit := do
  let released ← release_lock_if_owned generation
  check (if released then .ok ()
    else .error ⟨.OwnershipMismatch, "project lock is absent before required release"⟩)

/-! ## Transactions -/

/-- `create_transaction_record`. -/
def create_transaction_record (generation : LeanBunGenerationV1) (state : LeanGenerationStateV1) :
    ManagerProg Unit := do
  let _ ← Prog.read .Read fun s =>
    if (s.transactions generation.transaction_id).isSome then
      (.error ⟨.RecordDrift, "transaction record already exists"⟩ : GenerationResult Unit)
    else .ok ()
  Prog.atomic (fun _ => .Transaction) fun s =>
    match s.transactions generation.transaction_id with
    | some _ => (.error ⟨.LockBusy, "exclusive state file exists"⟩, s)
    | none => (.ok (), s.set_transaction generation.transaction_id
        (transaction_bytes (transaction_record generation state)))

/-- `valid_transition`. -/
def valid_transition : LeanGenerationStateV1 → LeanGenerationStateV1 → Bool
  | .Preparing, .Materialized => true
  | .Materialized, .Verified => true
  | .Verified, .Published => true
  | .Preparing, .Failed => true
  | .Materialized, .Failed => true
  | .Verified, .Failed => true
  | _, _ => false

/-- What `transition` checks, and the record it writes. -/
def checked_transition (generation : LeanBunGenerationV1) (next : LeanGenerationStateV1)
    (current : Option TransactionRecord) : GenerationResult TransactionRecord :=
  match current with
  | none => .error (drift "transaction record is missing")
  | some current =>
    if current.project ≠ generation.project_id ∨ current.generation ≠ generation.identity then
      .error (drift "transaction record identity changed")
    else if valid_transition current.state next = false then
      .error ⟨.InvalidTransition, "invalid generation transition"⟩
    else .ok { current with state := next }

/-- `transition`. -/
def transition (generation : LeanBunGenerationV1) (next : LeanGenerationStateV1) :
    ManagerProg Unit := do
  let current ← read_transaction_optional generation.transaction_id
  let updated ← Prog.lift (checked_transition generation next current)
  Prog.write .Transaction fun s =>
    s.set_transaction generation.transaction_id (transaction_bytes updated)
  Prog.read .Read fun s => require_exact (s.transactions generation.transaction_id)
    (transaction_bytes updated) .RecordDrift

/-! ## Generation directories -/

/-- The text of a generation's file. -/
def generation_text (generation : LeanBunGenerationV1) : GenerationFile → Str
  | .leanbun_lock => generation.lock_text
  | .lake_manifest => generation.manifest_text
  | .runtime_packages => generation.runtime_text
  | .generation_meta => generation.canonical_metadata

/-- The error of a file that is not as it should be. -/
def file_error : GenerationFile → LeanGenerationErrorKind
  | .leanbun_lock => .GenerationDrift
  | .generation_meta => .GenerationDrift
  | .lake_manifest => .MixedProjection
  | .runtime_packages => .MixedProjection

/-- What `verify_generation` says about the directory of a generation. -/
def verify_directory (generation : LeanBunGenerationV1) (directory : Option GenerationDirectory) :
    GenerationResult Unit := do
  match directory with
  | none => .error ⟨.Io, "M35 I/O failed"⟩
  | some directory =>
    match directory.packages with
    | none => .error (drift "generation root contains an unknown or missing entry")
    | some tree =>
      let _ ← ensure (∀ file ∈ [GenerationFile.leanbun_lock, .lake_manifest, .runtime_packages,
          .generation_meta], (directory.files file).isSome = true)
        (drift "generation root contains an unknown or missing entry")
      for file in [GenerationFile.generation_meta, .leanbun_lock, .lake_manifest,
          .runtime_packages] do
        require_exact (directory.files file) (generation_text generation file) (file_error file)
      let places ← generation.packages.mapM (package_place generation)
      validate_package_namespace places tree
      for package in generation.packages do
        let place ← package_place generation package
        verify_package_source_ignoring_lake_cache package place tree

/-- `verify_generation`. -/
def verify_generation (generation : LeanBunGenerationV1) : ManagerProg Unit :=
  Prog.read .Read fun s => verify_directory generation (s.generations generation.transaction_id)

/-- `fs::create_dir` of the generation root. -/
def create_generation_root (generation : LeanBunGenerationV1) : ManagerProg Unit :=
  Prog.atomic (fun _ => .Materialize) fun s =>
    match s.generations generation.transaction_id with
    | some _ => (.error ⟨.RecordDrift, "generation directory already exists before materialization"⟩, s)
    | none => (.ok (), s.set_generation generation.transaction_id ⟨fun _ => none, none⟩)

/-- A step inside the directory of a generation. -/
def change_directory (generation : LeanBunGenerationV1)
    (f : GenerationDirectory → GenerationResult Unit × GenerationDirectory) : ManagerProg Unit :=
  Prog.atomic (fun _ => .Materialize) fun s =>
    match s.generations generation.transaction_id with
    | none => (.error ⟨.Io, "M35 I/O failed"⟩, s)
    | some directory =>
      ((f directory).1, s.set_generation generation.transaction_id (f directory).2)

/-- `write_generation_file`. -/
def write_generation_file (generation : LeanBunGenerationV1) (file : GenerationFile) :
    ManagerProg Unit :=
  change_directory generation fun directory =>
    if (directory.files file).isSome then
      (.error ⟨.LockBusy, "exclusive state file exists"⟩, directory)
    else (.ok (), { directory with
      files := Function.update directory.files file (some (generation_text generation file)) })

/-- A step inside the packages directory. -/
def change_packages (generation : LeanBunGenerationV1) (f : Tree → GenerationResult Unit × Tree) :
    ManagerProg Unit :=
  change_directory generation fun directory =>
    match directory.packages with
    | none => (.error ⟨.Io, "M35 I/O failed"⟩, directory)
    | some tree => ((f tree).1, { directory with packages := some (f tree).2 })

/-- One round of the package loop of `materialize_generation`. -/
def materialize_package (objects : ObjectTrees) (generation : LeanBunGenerationV1)
    (package : GenerationPackageV1) : ManagerProg Unit := do
  let place ← Prog.lift (package_place generation package)
  change_packages generation fun tree =>
    match ensure_private_descendant tree [] place with
    | .error error => (.error error, tree)
    | .ok tree => (.ok (), tree)
  check (reverify_object objects package)
  Prog.for_each (fun entry => change_packages generation
    (materialize_entry objects package place entry)) package.entries

/-- `materialize_generation`. -/
def materialize_generation (objects : ObjectTrees) (generation : LeanBunGenerationV1)
    (fault : LeanGenerationFaultV1) : ManagerProg Unit := do
  create_generation_root generation
  write_generation_file generation .leanbun_lock
  inject fault .AfterLockFile "after generation lock file"
  write_generation_file generation .lake_manifest
  inject fault .AfterManifestProjection "after manifest projection"
  write_generation_file generation .runtime_packages
  inject fault .AfterRuntimeProjection "after runtime projection"
  change_directory generation fun directory =>
    (.ok (), { directory with packages := some (directory.packages.getD []) })
  Prog.for_each (materialize_package objects generation) generation.packages
  inject fault .AfterPackages "after package materialization"
  write_generation_file generation .generation_meta
  inject fault .AfterGenerationMetadata "after generation metadata"
  inject fault .AfterFileSync "after generation file sync"
  inject fault .AfterDirectorySync "after generation directory sync"
  change_directory generation fun directory =>
    (.ok (), { directory with packages := directory.packages.map make_generation_read_only })

/-! ## The active record -/

/-- `publish_active`. -/
def publish_active (generation : LeanBunGenerationV1) (fault : LeanGenerationFaultV1) :
    ManagerProg Unit := do
  let bytes := active_bytes (active_record generation)
  Prog.write .ActiveTemp fun s => { s with active_temps := s.active_temps ++ [bytes] }
  inject fault .BeforeActiveRename "before active rename"
  Prog.write .ActiveRename fun s =>
    { s with active_temps := s.active_temps.erase bytes, active := some bytes }
  let observed ← read_active_optional
  check (match observed with
    | none => .error (drift "active record disappeared after publication")
    | some observed =>
      if observed.transaction = generation.transaction_id ∧
          observed.generation = generation.identity ∧
          path_eq observed.path generation.generation_root = true then .ok ()
      else .error (drift "active record differs after publication"))

/-- One round of the loop of `remove_abandoned_active_temp`. -/
def remove_active_temp (expected candidate : Str) : ManagerProg Unit :=
  Prog.atomic (fun _ => .ActiveTemp) fun s =>
    match stable_read candidate with
    | .error error => (.error error, s)
    | .ok observed =>
      if observed = expected then (.ok (), { s with active_temps := s.active_temps.erase candidate })
      else (.ok (), s)

/-- `remove_abandoned_active_temp`. -/
def remove_abandoned_active_temp (generation : LeanBunGenerationV1) : ManagerProg Unit := do
  let candidates ← Prog.read .Read fun s => (.ok s.active_temps : GenerationResult (List Str))
  Prog.for_each (remove_active_temp (active_bytes (active_record generation))) candidates

/-! ## Retained references -/

/-- The references of a generation. -/
def references (generation : LeanBunGenerationV1) : List Reference :=
  generation.packages.map fun package => (generation.identity, package.store_object_sha256)

/-- The references that are retained. -/
def read_retained (s : ProjectState) : GenerationResult (List Reference) := do
  let pairs ← read_optional parse_retained s.retained
  return pairs.getD []

/-- The retained references together with those of a generation. -/
def retain (pairs : List Reference) (generation : LeanBunGenerationV1) : List Reference :=
  (references generation).foldl insert_reference pairs

/-- `update_retained`. -/
def update_retained (generation : LeanBunGenerationV1) : ManagerProg Unit := do
  let pairs ← Prog.read .Read read_retained
  let bytes := retained_bytes (retain pairs generation)
  Prog.write .Retained fun s => { s with retained := some bytes }
  Prog.read .Read fun s => require_exact s.retained bytes .RecordDrift

/-! ## The operations -/

section Operations

variable (manager : LeanGenerationManagerV1)

/-- `outcome`. -/
def outcome (generation : LeanBunGenerationV1) (state : LeanGenerationStateV1) :
    LeanGenerationOutcomeV1 :=
  ⟨generation.transaction_id, generation.identity, generation.generation_root, state⟩

/-- `LeanGenerationManagerV1::publish`. -/
def publish (objects : ObjectTrees) (generation : LeanBunGenerationV1)
    (fault : LeanGenerationFaultV1) : ManagerProg LeanGenerationOutcomeV1 := do
  validate_generation_location manager generation
  acquire_lock generation
  inject fault .AfterLock "after project lock"
  create_transaction_record generation .Preparing
  inject fault .AfterPreparing "after preparing record"
  materialize_generation objects generation fault
  transition generation .Materialized
  inject fault .AfterMaterialized "after materialized record"
  verify_generation generation
  transition generation .Verified
  inject fault .AfterVerified "after verified record"
  publish_active generation fault
  inject fault .AfterActiveRename "after active rename"
  transition generation .Published
  inject fault .AfterPublishedRecord "after published record"
  update_retained generation
  inject fault .AfterRetainedRecord "after retained record"
  inject fault .BeforeLockRelease "before project lock release"
  release_lock generation
  return outcome generation .Published

/-- The rest of `recover` when the active record names the generation. -/
def recover_active (generation : LeanBunGenerationV1) (transaction : Option TransactionRecord) :
    ManagerProg LeanGenerationRecoveryV1 := do
  verify_generation generation
  match transaction.map TransactionRecord.state with
  | some .Published => pure ()
  | some .Verified => transition generation .Published
  | _ => check (.error ⟨.InvalidTransition,
      "active generation lacks a verified or published transaction record"⟩)
  update_retained generation
  let released ← release_lock_if_owned generation
  return ⟨.Published, true, released⟩

/-- The rest of `recover` when it does not. -/
def recover_inactive (generation : LeanBunGenerationV1) (transaction : Option TransactionRecord) :
    ManagerProg LeanGenerationRecoveryV1 := do
  match transaction.map TransactionRecord.state with
  | some .Published => check (.error ⟨.IndeterminatePublication,
      "published transaction is not the active generation"⟩)
  | some .Failed => pure ()
  | some _ => transition generation .Failed
  | none => create_transaction_record generation .Failed
  remove_abandoned_active_temp generation
  let released ← release_lock_if_owned generation
  return ⟨.Failed, false, released⟩

/-- `LeanGenerationManagerV1::recover`. -/
def recover (generation : LeanBunGenerationV1) : ManagerProg LeanGenerationRecoveryV1 := do
  validate_generation_location manager generation
  let transaction ← read_transaction_optional generation.transaction_id
  let active ← read_active_optional
  let is_active := active.any fun record => names_generation record generation
  check (if (active.any fun record => decide (record.transaction = generation.transaction_id)) &&
        !is_active then
      .error ⟨.IndeterminatePublication,
        "active record names the transaction but carries different generation evidence"⟩
    else .ok ())
  if is_active then recover_active generation transaction
  else recover_inactive generation transaction

/-- The transaction of a generation is published. -/
def published_transaction (generation : LeanBunGenerationV1) (missing unpublished : String)
    (transaction : Option TransactionRecord) : GenerationResult Unit :=
  match transaction with
  | none => .error (drift missing)
  | some transaction =>
    if transaction.project ≠ generation.project_id ∨ transaction.generation ≠ generation.identity ∨
        transaction.state ≠ .Published then .error (drift unpublished)
    else .ok ()

/-- `verify_active_generation`. -/
def verify_active_generation (generation : LeanBunGenerationV1) : ManagerProg Unit := do
  validate_generation_location manager generation
  let active ← read_active_optional
  check (match active with
    | none => .error (drift "active generation record is missing")
    | some active =>
      if names_generation active generation then .ok ()
      else .error (drift "active generation record does not match requested generation"))
  let transaction ← read_transaction_optional generation.transaction_id
  check (published_transaction generation "active generation transaction record is missing"
    "active generation transaction is not published" transaction)
  verify_generation generation

/-- `verify_published_generation`. -/
def verify_published_generation (generation : LeanBunGenerationV1) : ManagerProg Unit := do
  let transaction ← read_transaction_optional generation.transaction_id
  check (published_transaction generation "retained generation transaction record is missing"
    "retained generation transaction is not published" transaction)
  verify_generation generation

/-- The closure inside `rollback_active_generation`. -/
def rollback_locked (current retained : LeanBunGenerationV1) : ManagerProg Unit := do
  verify_active_generation manager current
  verify_published_generation retained
  publish_active retained .None
  verify_active_generation manager retained

/-- `LeanGenerationManagerV1::rollback_active_generation`. -/
def rollback_active_generation (current retained : LeanBunGenerationV1) : ManagerProg Unit := do
  validate_generation_location manager current
  validate_generation_location manager retained
  check (if current.identity = retained.identity ∨
      current.transaction_id = retained.transaction_id then
      .error ⟨.InvalidField, "rollback current and retained generations must be distinct"⟩
    else .ok ())
  verify_active_generation manager current
  verify_published_generation retained
  acquire_lock current
  let result ← (rollback_locked manager current retained).attempt
  match result with
  | .ok () => release_lock current
  | .error error =>
    let released : Except LeanGenerationError Bool ← (release_lock_if_owned current).attempt
    match released with
    | _ => Prog.lift (.error error)

/-- `active_generation_reference`. -/
def active_generation_reference : ManagerProg (Option ActiveRecord) := read_active_optional

end Operations

end LeanBun.Generation
