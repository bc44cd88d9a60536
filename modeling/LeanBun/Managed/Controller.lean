/-
The controller of managed projects: adopt, update, recover and roll back.

A managed project has two stores that are written one after the other: its
record in the registry, and the project directory of the generation manager.
`update`, `recover` and `roll back` take the operation lease first; `adopt` does
not. The lease is a lock on an open file: it goes when the operation ends, and
with the process.

What an operation reads of the project's inputs comes in as `ManagedInputs`. The
temporary file that `replace_record` renames is left out: nothing reads it back.
-/
import LeanBun.Managed.Model

set_option autoImplicit false

namespace LeanBun.Managed

open LeanBun.Lib LeanBun.Core LeanBun.Generation

/-! ## The state of a managed project -/

/-- The project's record in the registry, whether an operation holds the lease,
and the project directory of the generation manager. -/
structure ManagedState where
  record : Option Str
  lease : Bool
  generations : ProjectState

/-- A project that was never adopted. -/
def ManagedState.initial : ManagedState := ⟨none, false, ProjectState.initial⟩

/-- The kinds of steps of an operation. -/
inductive ManagedStep where
  | Read
  | Lease
  | Record
  | Generation (step : ManagerStep)
deriving DecidableEq

abbrev ManagedProg (α : Type) := Prog ManagedState ManagedStep ManagedProjectError α

/-- An operation of the generation manager on the project's directory. -/
def manage {α : Type} (p : ManagerProg α) : ManagedProg α :=
  (p.zoom ManagedState.generations (fun generations s => { s with generations }) .Generation).map_error
    generation_error

/-- `ManagedProjectControllerV1`: the project and the generation state. -/
structure ManagedProjectControllerV1 where
  project : PathBuf
  state : PathBuf
deriving DecidableEq

/-- `LeanGenerationManagerV1::open_managed` of the controller's paths. -/
def ManagedProjectControllerV1.manager (controller : ManagedProjectControllerV1) :
    LeanGenerationManagerV1 := ⟨controller.state, controller.project⟩

/-- What an operation reads of the project, and the id it makes. -/
structure ManagedInputs where
  /-- `new_transaction`. -/
  transaction : ManagedResult ExecutionId
  /-- `management_input_sha256`. -/
  management_input_sha256 : ManagedResult Sha256
  /-- `hash_project_input_tree` after the reservation. -/
  reserved_tree : ManagedResult Sha256
  /-- `model` and `model_with_declaration`. -/
  model : ManagedResult ManagedModelV1
  /-- The trees of the objects in the stores. -/
  objects : ObjectTrees

/-- `ManagedProjectStatusV1`. -/
structure ManagedProjectStatusV1 where
  project_id : ProjectId
  project_root : PathBuf
  target : Str
  active_transaction : ExecutionId
  previous_transaction : Option ExecutionId
  pending_transaction : Option ExecutionId
  generation_sha256 : Sha256
  package_count : ℕ
deriving DecidableEq

/-- `status_from`. -/
def status_from (record : ManagedRecordV1) (generation : LeanBunGenerationV1) :
    ManagedProjectStatusV1 :=
  ⟨record.project_id, record.project_root, record.target, record.active_transaction,
    record.previous_transaction, record.pending_transaction, generation.identity,
    generation.packages.length⟩

/-! ## The record and the lease -/

def io_error : ManagedProjectError := ⟨.Io, "managed project I/O failed"⟩

/-- `record_path.exists()` as a check. -/
def require_absent (message : String) : ManagedProg Unit :=
  Prog.read .Read fun s => if s.record.isSome then .error ⟨.AlreadyAdopted, message⟩ else .ok ()

/-- `create_record`: the file is created only if there is none. -/
def create_record (record : ManagedRecordV1) : ManagedProg Unit := do
  require_absent "managed adoption record already exists"
  Prog.atomic (fun _ => .Record) fun s =>
    if s.record.isSome then (.error io_error, s)
    else (.ok (), { s with record := some (record_bytes record) })

/-- `replace_record`: a rename over whatever is there, read back. -/
def replace_record (record : ManagedRecordV1) : ManagedProg Unit := do
  Prog.write .Record fun s => { s with record := some (record_bytes record) }
  Prog.read .Read fun s =>
    match s.record with
    | none => .error io_error
    | some text => do
      let observed ← stable_read text
      if observed ≠ record_bytes record then
        .error (input_error "managed record changed after publication")
      else .ok ()

/-- `fs::remove_file` of the record. -/
def remove_record : ManagedProg Unit :=
  Prog.atomic (fun _ => .Record) fun s =>
    if s.record.isSome then (.ok (), { s with record := none }) else (.error io_error, s)

/-- `read_record`. -/
def read_record : ManagedProg ManagedRecordV1 :=
  Prog.read .Read fun s =>
    match s.record with
    | none => .error ⟨.NotAdopted, "project has not been explicitly adopted"⟩
    | some text => read_text text

/-- `acquire_operation_lease`: the lock is not waited for. -/
def acquire_operation_lease : ManagedProg Unit :=
  Prog.atomic (fun _ => .Lease) fun s =>
    if s.lease then (.error ⟨.PendingTransaction, "another managed operation is already active"⟩, s)
    else (.ok (), { s with lease := true })

/-- `impl Drop for ManagedOperationLeaseV1`. -/
def release_operation_lease : ManagedProg Unit :=
  Prog.write .Lease fun s => { s with lease := false }

/-- The rest of an operation under the lease, however it ends. -/
def under_lease {α : Type} (body : ManagedProg α) : ManagedProg α := do
  acquire_operation_lease
  let result : Except ManagedProjectError α ← body.attempt
  release_operation_lease
  Prog.lift result

/-! ## The operations -/

section Operations

variable (controller : ManagedProjectControllerV1)

/-- The record that reserves the adoption. -/
def preparing_record (target : Str) (target_valid : valid_build_target target = true)
    (transaction : ExecutionId) (management_input_sha256 : Sha256) : ManagedRecordV1 where
  project_id := project_id controller.project
  project_root := controller.project
  target := target
  management_input_sha256 := management_input_sha256
  baseline_transaction := transaction
  active_transaction := transaction
  previous_transaction := none
  pending_transaction := some transaction
  target_valid := target_valid

/-- `adopt_declaration_with_fault`. -/
def adopt_declaration_with_fault (target : Str) (expected_tree : Sha256) (inputs : ManagedInputs)
    (fault : LeanGenerationFaultV1) : ManagedProg ManagedProjectStatusV1 := do
  let ⟨target_valid⟩ ← Prog.lift (validate_target target)
  require_absent "project already has a managed adoption record"
  let transaction ← Prog.lift inputs.transaction
  let management_input_sha256 ← Prog.lift inputs.management_input_sha256
  let preparing := preparing_record controller target target_valid transaction
    management_input_sha256
  create_record preparing
  let reserved_tree ← Prog.lift inputs.reserved_tree
  Prog.lift (if reserved_tree ≠ expected_tree then
      .error (input_error "managed intake candidate changed after pending reservation")
    else .ok ())
  let model ← Prog.lift inputs.model
  Prog.lift (require_model_identity model preparing)
  let generation ← Prog.lift (model.generation controller.manager transaction)
  let _ ← manage (publish controller.manager inputs.objects generation fault)
  let active := { preparing with pending_transaction := none }
  replace_record active
  return status_from active generation

/-- `update_with_fault`. -/
def update_with_fault (inputs : ManagedInputs) (fault : LeanGenerationFaultV1) :
    ManagedProg ManagedProjectStatusV1 := under_lease do
  let record ← read_record
  Prog.lift (if record.pending_transaction.isSome then
      .error ⟨.PendingTransaction, "managed project has a pending transaction; recover first"⟩
    else .ok ())
  let model ← Prog.lift inputs.model
  Prog.lift (require_model_identity model record)
  let current ← Prog.lift (model.generation controller.manager record.active_transaction)
  manage (verify_active_generation controller.manager current)
  let transaction ← Prog.lift inputs.transaction
  let candidate ← Prog.lift (model.generation controller.manager transaction)
  replace_record { record with pending_transaction := some transaction }
  let _ ← manage (publish controller.manager inputs.objects candidate fault)
  let record := { record with
    previous_transaction := some record.active_transaction
    active_transaction := transaction
    pending_transaction := none }
  replace_record record
  return status_from record candidate

/-- `initial`: the pending transaction is the adoption itself. -/
def is_initial (record : ManagedRecordV1) (pending : ExecutionId) : Bool :=
  decide (pending = record.baseline_transaction) && decide (pending = record.active_transaction) &&
    record.previous_transaction.isNone

/-- The end of an adoption that is given up. -/
def remove_reservation (message : String) : ManagedProg ManagedProjectStatusV1 := do
  remove_record
  Prog.lift (.error ⟨.NotAdopted, message⟩)

/-- The record after the pending transaction was recovered, by whether the active
record names its generation. -/
def recovered_record (record : ManagedRecordV1) (pending : ExecutionId) (committed : Bool) :
    ManagedRecordV1 :=
  if committed then { record with
    previous_transaction := some record.active_transaction
    active_transaction := pending
    pending_transaction := none }
  else { record with pending_transaction := none }

/-- The rest of `recover` once the pending generation is known. -/
def recover_pending (record : ManagedRecordV1) (model : ManagedModelV1) (transaction : ExecutionId)
    (pending : LeanBunGenerationV1) : ManagedProg ManagedProjectStatusV1 := do
  let active ← manage active_generation_reference
  if active.isNone ∧ is_initial record transaction = true then do
    let _ ← manage (Generation.recover controller.manager pending)
    remove_reservation "failed initial adoption was recovered and removed; adopt again explicitly"
  else do
    let committed := active.any fun active => decide (active.generation = pending.identity)
    let _ ← manage (Generation.recover controller.manager pending)
    let record := recovered_record record transaction committed
    replace_record record
    let current ← Prog.lift (model.generation controller.manager record.active_transaction)
    manage (verify_active_generation controller.manager current)
    return status_from record current

/-- `recover`. -/
def recover (inputs : ManagedInputs) : ManagedProg ManagedProjectStatusV1 := under_lease do
  let record ← read_record
  match record.pending_transaction with
  | none =>
    Prog.lift (.error ⟨.PendingTransaction, "managed project has no pending transaction"⟩)
  | some transaction => do
    -- the project id of the record is the controller's own
    let unrecorded ← Prog.read .Read fun s =>
      .ok (s.generations.transactions transaction).isNone
    if is_initial record transaction = true ∧ unrecorded = true then
      remove_reservation "failed initial intake reservation was removed; add again explicitly"
    else do
      let model ← Prog.lift inputs.model
      Prog.lift (require_model_identity model record)
      let pending ← Prog.lift (model.generation controller.manager transaction)
      recover_pending controller record model transaction pending

/-- `rollback`. -/
def rollback (inputs : ManagedInputs) : ManagedProg ManagedProjectStatusV1 := under_lease do
  let record ← read_record
  Prog.lift (if record.pending_transaction.isSome then
      .error ⟨.PendingTransaction, "cannot roll back a managed project with a pending transaction"⟩
    else .ok ())
  match record.previous_transaction with
  | none =>
    Prog.lift (.error ⟨.NoPreviousGeneration, "managed project has no previous generation"⟩)
  | some previous => do
    let model ← Prog.lift inputs.model
    Prog.lift (require_model_identity model record)
    let current ← Prog.lift (model.generation controller.manager record.active_transaction)
    let retained ← Prog.lift (model.generation controller.manager previous)
    manage (rollback_active_generation controller.manager current retained)
    let record := { record with
      previous_transaction := some record.active_transaction
      active_transaction := previous }
    replace_record record
    return status_from record retained

end Operations

/-! ## Runs -/

/-- An operation of the controller with what it reads. -/
inductive ManagedOperation where
  | adopt (target : Str) (expected_tree : Sha256) (inputs : ManagedInputs)
    (fault : LeanGenerationFaultV1)
  | update (inputs : ManagedInputs) (fault : LeanGenerationFaultV1)
  | recover (inputs : ManagedInputs)
  | rollback (inputs : ManagedInputs)

/-- The program of an operation. -/
def ManagedOperation.program (controller : ManagedProjectControllerV1) :
    ManagedOperation → ManagedProg ManagedProjectStatusV1
  | .adopt target expected_tree inputs fault =>
    adopt_declaration_with_fault controller target expected_tree inputs fault
  | .update inputs fault => update_with_fault controller inputs fault
  | .recover inputs => Managed.recover controller inputs
  | .rollback inputs => Managed.rollback controller inputs

/-- The process is gone, and the lease with it. -/
def ManagedState.left (s : ManagedState) : ManagedState := { s with lease := false }

/-- What is left behind by an operation that is cut off after `n` steps, or by one
that ended when there are fewer. -/
def ManagedOperation.cut (controller : ManagedProjectControllerV1) (operation : ManagedOperation)
    (n : ℕ) (s : ManagedState) : ManagedState :=
  ((operation.program controller).crash n s).left

end LeanBun.Managed
