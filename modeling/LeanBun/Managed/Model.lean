/-
What a managed operation knows of the project: `ManagedModelV1`.

The model is read from the project's files and the stores anew by every
operation. It holds the lock, the resolution graph, the manifest projection, the
metadata and the verified objects, and makes from them the generation of any
transaction: the same model gives the same generation for one transaction, and
generations at different places for different ones.
-/
import LeanBun.Generation.Build
import LeanBun.Generation.Manager
import LeanBun.Managed.Record

set_option autoImplicit false

namespace LeanBun.Managed

open LeanBun.Lib LeanBun.Core LeanBun.Lock LeanBun.Bridge LeanBun.Resolver
open LeanBun.Store (VerifiedPackageObjectV1)
open LeanBun.Generation

/-- `generation_error`. -/
def generation_error (error : LeanGenerationError) : ManagedProjectError :=
  ⟨.Generation, "generation rejected: " ++ error.message⟩

/-- `map_err(|error| input_error(error.to_string()))` on a result of the lock crate. -/
def lock_input {α : Type} (result : LockResult α) : ManagedResult α :=
  result.mapError fun error => input_error error.message

/-- The same on a result of the bridge crate. -/
def bridge_input {α : Type} (result : BridgeResult α) : ManagedResult α :=
  result.mapError fun error => input_error error.message

/-- `ManagedModelV1`, without its manager, which belongs to the controller. -/
structure ManagedModelV1 where
  lock : LeanBunLockV1
  graph : LeanResolutionGraphV1
  manifest : LakeManifestProjectionV1
  metadata : List LakePackageProjectionMetadataV1
  objects : List VerifiedPackageObjectV1
  management_input_sha256 : Sha256

section Model

variable (manager : LeanGenerationManagerV1) (model : ManagedModelV1)

/-- The body of the loop of `ManagedModelV1::generation`. -/
def path_decision (generation_root : PathBuf) (object : VerifiedPackageObjectV1) :
    ManagedResult PackagePathDecisionV1 :=
  match model.lock.packages.find? fun locked => decide (locked.key = object.package) with
  | none => .error (input_error "store object is absent from managed lock")
  | some locked => do
    let provenance ← lock_input (PackagePathProvenanceSetV1.new
      [PackagePathProvenanceV1.bun_generated_runtime object.package locked.selected_source_identity])
    lock_input (PackagePathDecisionV1.new object.package provenance locked.selected_source_identity
      generation_root (package_path generation_root object.package.scope object.package.name)
      object.store_object_sha256 object.source_tree_sha256 model.graph.identity)

/-- `ManagedModelV1::generation`. -/
def ManagedModelV1.generation (transaction : ExecutionId) : ManagedResult LeanBunGenerationV1 := do
  let generation_root := manager.generation_root transaction
  let decisions ← model.objects.mapM (path_decision model generation_root)
  let decisions ← lock_input (PackagePathDecisionSetV1.new model.lock decisions)
  let runtime ← bridge_input
    (LakeRuntimePackagesProjectionV1.from_bun_decisions model.lock decisions model.metadata)
  (LeanBunGenerationV1.new transaction manager.project_root generation_root model.lock model.graph
    decisions model.manifest runtime model.objects).mapError generation_error

/-- `require_model_identity`. -/
def require_model_identity (record : ManagedRecordV1) : ManagedResult Unit :=
  if record.management_input_sha256 ≠ model.management_input_sha256 then
    .error (input_error "managed configuration/toolchain changed; explicit migration is required")
  else .ok ()

end Model

variable {manager : LeanGenerationManagerV1} {model : ManagedModelV1} {transaction : ExecutionId}
  {generation : LeanBunGenerationV1}

/-- What the constructor takes over as it is. -/
theorem new_eq_ok {project_root generation_root : PathBuf} {lock : LeanBunLockV1}
    {graph : LeanResolutionGraphV1} {decisions : PackagePathDecisionSetV1}
    {manifest : LakeManifestProjectionV1} {runtime : LakeRuntimePackagesProjectionV1}
    {objects : List VerifiedPackageObjectV1}
    (h : LeanBunGenerationV1.new transaction project_root generation_root lock graph decisions
      manifest runtime objects = .ok generation) :
    generation.transaction_id = transaction ∧ generation.project_root = project_root ∧
      generation.generation_root = generation_root := by
  unfold LeanBunGenerationV1.new LeanBunGenerationV1.new_with_reservoir_bindings at h
  obtain ⟨_, -, h⟩ := bind_eq_ok.mp h
  obtain ⟨_, -, h⟩ := bind_eq_ok.mp h
  obtain ⟨_, -, h⟩ := bind_eq_ok.mp h
  obtain ⟨_, -, h⟩ := bind_eq_ok.mp h
  obtain ⟨_, -, h⟩ := bind_eq_ok.mp h
  obtain ⟨_, -, h⟩ := bind_eq_ok.mp h
  obtain ⟨_, -, h⟩ := bind_eq_ok.mp h
  obtain ⟨_, -, h⟩ := bind_eq_ok.mp h
  split at h
  · cases h
  · obtain ⟨_, -, h⟩ := bind_eq_ok.mp h
    cases h
    exact ⟨rfl, rfl, rfl⟩

/-- The generation stands for the transaction, at its place below the manager's state. -/
structure StandsFor (manager : LeanGenerationManagerV1) (transaction : ExecutionId)
    (generation : LeanBunGenerationV1) : Prop where
  named : generation.transaction_id = transaction
  project : generation.project_root = manager.project_root
  root : generation.generation_root = manager.generation_root transaction

theorem StandsFor.location (h : StandsFor manager transaction generation) :
    valid_location manager generation = true := by
  unfold valid_location LeanBunGenerationV1.project_id LeanGenerationManagerV1.project_id
  rw [h.project, h.root, h.named, path_eq_self, path_eq_self]
  simp

/-- **The generation of a transaction** names it and is at its place. -/
theorem ManagedModelV1.generation_eq_ok (h : model.generation manager transaction = .ok generation) :
    StandsFor manager transaction generation := by
  unfold ManagedModelV1.generation at h
  dsimp only at h
  obtain ⟨_, -, h⟩ := bind_eq_ok.mp h
  obtain ⟨_, -, h⟩ := bind_eq_ok.mp h
  obtain ⟨_, -, h⟩ := bind_eq_ok.mp h
  obtain ⟨htransaction, hproject, hroot⟩ := new_eq_ok (mapError_eq_ok.mp h)
  exact ⟨htransaction, hproject, hroot⟩

end LeanBun.Managed
