/-
A project without dependencies.

Its lock, its resolution graph and its projections are empty, and no object is
fetched for it. The generations of two of its transactions are published one after
the other; the samples of the controller are runs of this project.
-/
import LeanBun.Generation.Ownership
import LeanBun.Generation.Vendored
import LeanBun.Managed.Completing

set_option autoImplicit false

namespace LeanBun.Managed

open LeanBun.Lib LeanBun.Core LeanBun.Lock LeanBun.Bridge LeanBun.Resolver
open LeanBun.Store (VerifiedPackageObjectV1)
open LeanBun.Generation

/-! ## The model -/

def bare_root : LakeRootDeclarationV1 := vendor_root [] no_keys_sorted (Nat.zero_le _)

def bare_lock : LeanBunLockV1 := vendor_lock [] no_keys_sorted (Nat.zero_le _) rfl

def bare_graph : LeanResolutionGraphV1 where
  toolchain := sample_toolchain
  root_declaration_identity := bare_root.identity
  packages := []
  root_packages := []
  resolution_order := []
  shadows := []
  impact_closure := []
  identity := digest (graph_identity_bytes sample_toolchain bare_root.identity [] [] [] [] [])

/-- The graph is the one that the resolver makes. -/
theorem bare_graph_resolved : resolve_lean_dependencies_v1
    (vendor_resolution [] List.Pairwise.nil (Nat.zero_le _)) [] = .ok bare_graph := rfl

def bare_decisions : PackagePathDecisionSetV1 := ⟨[], List.Pairwise.nil⟩

def bare_runtime : LakeRuntimePackagesProjectionV1 := ⟨[]⟩

def bare_model : ManagedModelV1 where
  lock := bare_lock
  graph := bare_graph
  manifest := vendor_manifest []
  metadata := []
  objects := []
  management_input_sha256 := digest []

/-- The generation of a transaction of the project. -/
def bare_made (manager : LeanGenerationManagerV1) (transaction : ExecutionId)
    (hproject : valid_absolute_path manager.project_root = true)
    (hroot : valid_absolute_path (manager.generation_root transaction) = true) :
    LeanBunGenerationV1 where
  transaction_id := transaction
  project_root := manager.project_root
  generation_root := manager.generation_root transaction
  lock_sha256 := digest (as_bytes "leanbun-lock-bytes-v1\x00".toList ++
    as_bytes bare_lock.to_canonical_text)
  graph_sha256 := bare_graph.identity
  decision_set_sha256 := bare_decisions.digest
  manifest_projection_sha256 := (vendor_manifest []).sha256
  runtime_projection_sha256 := bare_runtime.sha256
  reservoir_bindings_sha256 := none
  lean_toolchain := bare_lock.lean_toolchain
  compiler_githash := bare_lock.lean_compiler_githash
  lake_version := bare_lock.lake_version
  lock_text := bare_lock.to_canonical_text
  manifest_text := (vendor_manifest []).as_str
  runtime_text := bare_runtime.as_str
  packages := []
  project_root_valid := hproject
  generation_root_valid := hroot
  count_bounded := Nat.zero_le _
  lock_hashed := rfl
  paths_canonical := no_packages_placed manager transaction
  keys_valid := no_packages_keyed
  compiler_valid := bare_lock.githash_valid

section Bare

variable (manager : LeanGenerationManagerV1) (transaction : ExecutionId)
  (hproject : valid_absolute_path manager.project_root = true)
  (hroot : valid_absolute_path (manager.generation_root transaction) = true)

theorem bare_new : LeanBunGenerationV1.new transaction manager.project_root
    (manager.generation_root transaction) bare_lock bare_graph bare_decisions (vendor_manifest [])
    bare_runtime [] = .ok (bare_made manager transaction hproject hroot) := by
  have hcount : ([] : List VerifiedPackageObjectV1).length ≤ MAX_GENERATION_PACKAGES_V1 :=
    Nat.zero_le _
  have hdistinct : (([] : List VerifiedPackageObjectV1).map VerifiedPackageObjectV1.package).Nodup :=
    List.nodup_nil
  have hroots : roots_agree bare_lock bare_graph := ⟨rfl, rfl, rfl, rfl⟩
  have hcounts : counts_agree bare_lock bare_graph bare_decisions bare_runtime [] :=
    ⟨rfl, rfl, rfl, rfl⟩
  have hkeys : same_keys (bare_graph.packages.map LeanResolvedPackageV1.key)
      (bare_lock.packages.map LockedLeanPackageV1.key) := ⟨fun _ h => h, fun _ h => h⟩
  have hplace : place_packages (manager.generation_root transaction) bare_lock bare_graph
      bare_decisions [] = .ok ⟨[], []⟩ := rfl
  unfold LeanBunGenerationV1.new LeanBunGenerationV1.new_with_reservoir_bindings
  refine bind_eq_ok.mpr ⟨⟨hproject⟩, ensure_ok hproject _, ?_⟩
  refine bind_eq_ok.mpr ⟨⟨hroot⟩, ensure_ok hroot _, ?_⟩
  refine bind_eq_ok.mpr ⟨⟨hcount⟩, ensure_ok hcount _, ?_⟩
  refine bind_eq_ok.mpr ⟨⟨hroots⟩, ensure_ok hroots _, ?_⟩
  refine bind_eq_ok.mpr ⟨⟨hcounts⟩, ensure_ok hcounts _, ?_⟩
  refine bind_eq_ok.mpr ⟨⟨hdistinct⟩, ensure_ok hdistinct _, ?_⟩
  refine bind_eq_ok.mpr ⟨⟨hkeys⟩, ensure_ok hkeys _, ?_⟩
  refine bind_eq_ok.mpr ⟨(), rfl, ?_⟩
  split
  · next error herror => cases herror.symm.trans hplace
  · next state hstate =>
    cases Except.ok.inj (hstate.symm.trans hplace)
    simp only [ensure, dif_pos]
    rfl

theorem bare_model_generation : bare_model.generation manager transaction =
    .ok (bare_made manager transaction hproject hroot) := by
  have hdecisions : lock_input (PackagePathDecisionSetV1.new bare_lock []) = .ok bare_decisions := rfl
  have hruntime : bridge_input (LakeRuntimePackagesProjectionV1.from_bun_decisions bare_lock
      bare_decisions []) = .ok bare_runtime := rfl
  unfold ManagedModelV1.generation
  refine bind_eq_ok.mpr ⟨[], rfl, ?_⟩
  refine bind_eq_ok.mpr ⟨_, hdecisions, ?_⟩
  refine bind_eq_ok.mpr ⟨_, hruntime, ?_⟩
  exact congrArg (Except.mapError generation_error) (bare_new manager transaction hproject hroot)

theorem bare_made_location :
    valid_location manager (bare_made manager transaction hproject hroot) = true :=
  (ManagedModelV1.generation_eq_ok (bare_model_generation manager transaction hproject hroot)).location

/-- Its files can be read. -/
theorem bare_made_small (file : GenerationFile) :
    byte_len (generation_text (bare_made manager transaction hproject hroot) file) ≤
      LeanBun.Generation.MAX_RECORD_BYTES := by
  unfold LeanBun.Generation.MAX_RECORD_BYTES
  cases file with
  | leanbun_lock =>
    show byte_len bare_lock.to_canonical_text ≤ 2 * 1024 * 1024
    unfold LeanBunLockV1.to_canonical_text bare_lock vendor_lock LakeRootDeclarationV1.identity
      hash_graph empty_tree LeanBun.Store.tree_digest
    simp only [digest_eq_evaluate]
    decide +kernel
  | lake_manifest =>
    exact (by decide +kernel : byte_len (vendor_manifest []).as_str ≤ 2 * 1024 * 1024)
  | runtime_packages => exact (by decide +kernel : byte_len bare_runtime.as_str ≤ 2 * 1024 * 1024)
  | generation_meta =>
    have htoolchain : byte_len (hex (as_bytes bare_lock.lean_toolchain)) ≤ 4096 := by decide +kernel
    have hgithash : byte_len bare_lock.lean_compiler_githash ≤ 4096 := by decide +kernel
    have hversion : byte_len (hex (as_bytes bare_lock.lake_version)) ≤ 4096 := by decide +kernel
    exact metadata_small (g := bare_made manager transaction hproject hroot) rfl rfl
      htoolchain hgithash hversion

end Bare

/-! ## The project -/

def sample_controller : ManagedProjectControllerV1 := ⟨"/project".toList, "/state".toList⟩

def sample_target : Str := "Main".toList

theorem sample_target_valid : valid_build_target sample_target = true := by decide

/-- What every operation reads: the project does not change. -/
def sample_inputs (transaction : ExecutionId) : ManagedInputs where
  transaction := .ok transaction
  management_input_sha256 := .ok (digest [])
  reserved_tree := .ok empty_tree
  model := .ok bare_model
  objects := no_objects

def first_made : LeanBunGenerationV1 :=
  bare_made sample_manager first_transaction sample_project_valid first_root_valid

def second_made : LeanBunGenerationV1 :=
  bare_made sample_manager second_transaction sample_project_valid second_root_valid

theorem first_made_gives :
    bare_model.generation sample_controller.manager first_transaction = .ok first_made :=
  bare_model_generation _ _ _ _

theorem second_made_gives :
    bare_model.generation sample_controller.manager second_transaction = .ok second_made :=
  bare_model_generation _ _ _ _

/-- The two generations have different digests. -/
theorem made_identities_distinct : second_made.identity ≠ first_made.identity := by
  unfold LeanBunGenerationV1.identity generation_identity_bytes LeanBunGenerationV1.project_id
    project_id first_made second_made bare_made LeanBunLockV1.to_canonical_text
    PackagePathDecisionSetV1.digest LakeManifestProjectionV1.sha256
    LakeRuntimePackagesProjectionV1.sha256 bare_graph bare_lock bare_root vendor_lock
    LakeRootDeclarationV1.identity hash_graph empty_tree LeanBun.Store.tree_digest
  simp only [digest_eq_evaluate]
  decide +kernel

theorem made_transactions_distinct : second_made.transaction_id ≠ first_made.transaction_id :=
  (by decide : second_transaction ≠ first_transaction)

theorem first_made_clean : clean_value first_made.generation_root = true :=
  (clean_generation_root (bare_made_location sample_manager first_transaction _ _)).trans
    (by decide : plain_path sample_manager.state_root = true)

theorem made_published : ∃ s₁ s₂,
    PublishedTwice sample_manager no_objects first_made second_made s₁ s₂ :=
  publish_twice (bare_made_location _ _ _ _) (bare_made_location _ _ _ _) ⟨rfl, rfl⟩ no_objects
    (fun file => ⟨bare_made_small _ _ _ _ file, bare_made_small _ _ _ _ file⟩) (by decide) (by decide)

/-! ## Its runs -/

/-- The record that reserves the adoption. -/
def first_record : ManagedRecordV1 :=
  preparing_record sample_controller sample_target sample_target_valid first_transaction (digest [])

/-- The record after the adoption and an update. -/
def second_record : ManagedRecordV1 :=
  updated_record (adopted_record first_record) second_transaction

def sample_adoption : ManagedOperation :=
  .adopt sample_target empty_tree (sample_inputs first_transaction) .None

def sample_update : ManagedOperation := .update (sample_inputs second_transaction) .None

def sample_recovery : ManagedOperation := .recover (sample_inputs first_transaction)

/-- Records of the project are read back. -/
theorem sample_reads {record : ManagedRecordV1} (hroot : record.project_root = "/project".toList)
    (htarget : record.target = sample_target) {s : ManagedState}
    (hs : s.record = some (record_bytes record)) : reads s record := by
  refine ⟨_, hs, read_text_bytes ⟨?_, ?_⟩ (record_bytes_small ?_ ?_)⟩
  · rw [hroot]
    decide
  · rw [htarget]
    decide
  · rw [hroot]
    decide
  · rw [htarget]
    decide

theorem sample_small {record : ManagedRecordV1} (hroot : record.project_root = "/project".toList)
    (htarget : record.target = sample_target) : byte_len (record_bytes record) ≤ MAX_RECORD_BYTES := by
  refine record_bytes_small ?_ ?_
  · rw [hroot]
    decide
  · rw [htarget]
    decide

theorem sample_adopts : Adopts sample_controller sample_target empty_tree
    (sample_inputs first_transaction) ManagedState.initial first_transaction bare_model first_made :=
  ⟨sample_target_valid, rfl, rfl, rfl, rfl, rfl, first_made_gives⟩

section Runs

variable {s₁ s₂ : ProjectState}

/-- The project after its adoption. -/
def sample_first (s₁ : ProjectState) : ManagedState :=
  ⟨some (record_bytes (adopted_record first_record)), false, s₁⟩

/-- The project after an update. -/
def sample_second (s₂ : ProjectState) : ManagedState := ⟨some (record_bytes second_record), false, s₂⟩

theorem sample_adopted (h : PublishedTwice sample_manager no_objects first_made second_made s₁ s₂) :
    ∃ n, sample_adoption.cut sample_controller n ManagedState.initial = sample_first s₁ :=
  cut_run (t := sample_first s₁)
    (adopt_returns sample_adopts rfl h.first_run (sample_small rfl rfl))

theorem sample_upgrades (h : PublishedTwice sample_manager no_objects first_made second_made s₁ s₂) :
    Upgrades sample_controller (sample_inputs second_transaction) (sample_first s₁)
      (adopted_record first_record) second_transaction bare_model first_made second_made :=
  ⟨rfl, sample_reads rfl rfl rfl, rfl, rfl, rfl, first_made_gives, h.first_active, rfl,
    second_made_gives, sample_small rfl rfl⟩

theorem sample_updated (h : PublishedTwice sample_manager no_objects first_made second_made s₁ s₂) :
    ∃ n, sample_update.cut sample_controller n (sample_first s₁) = sample_second s₂ :=
  cut_run (t := sample_second s₂)
    (update_returns (sample_upgrades h) h.second_run (sample_small rfl rfl))

/-- What a rollback of the project finds. -/
theorem sample_reverts (transaction : ExecutionId) :
    Reverts sample_controller (sample_inputs transaction) (sample_second s₂) second_record
      first_transaction bare_model second_made first_made :=
  ⟨rfl, sample_reads rfl rfl rfl, rfl, rfl, rfl, rfl, second_made_gives, first_made_gives⟩

end Runs

end LeanBun.Managed
