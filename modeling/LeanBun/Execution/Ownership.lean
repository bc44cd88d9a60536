/-
Who removes a build lock.

`releaseBuildLock` reads the lock, finds its execution in it, and removes the file at the
path. Between the two another release of the same execution can remove the file, and
another coordinator create its own. Two recoveries of one terminal execution do that. In
a run in which no lock is created while a release of it stands between its read and its
unlink, a release removes nothing but the lock of its execution, and of the coordinators
that are still there at most one works under a lock.
-/
import LeanBun.Execution.Recover
import LeanBun.Execution.Records

set_option autoImplicit false

namespace LeanBun.Execution

open LeanBun.Lib

/-! ## The system -/

/-- What a thread runs. -/
inductive Role where
  | coordinator (input : CoordinatorInput) (profileSha256 reusePolicySha256 : Option JsString)
      (prepared : Bool) (work : Work)
  | recovery (executionId : JsString) (audit : RecoveryAudit)

/-- A coordinator in a process. -/
def CoordinatorInput.in_process (input : CoordinatorInput) (pid : ℤ) : CoordinatorInput :=
  { input with lock := { input.lock with coordinatorPid := pid } }

/-- The program of a thread in a process. -/
def Role.program (env : Environment) (stateRoot : JsString) (pid : ℤ) : Role → StoreProg Unit
  | .coordinator input profileSha256 reusePolicySha256 prepared work => do
    let _ ← run_execution env stateRoot (input.in_process pid) profileSha256 reusePolicySha256
      prepared work
    return ()
  | .recovery executionId audit => do
    let _ ← recoverStaleExecution env stateRoot executionId audit
    return ()

/-- The end of a process, with its releases. -/
def process_ended (home : ℕ → ℤ) (pid : ℤ) (s : StateRoot) : StateRoot :=
  { s with
    gone := Function.update s.gone pid true
    releasing := fun i => if home i = pid then none else s.releasing i }

/-- Coordinators and recoveries on one state root, each in some process. -/
def lock_system (stateRoot : JsString) (roles : ℕ → Role) (envs : ℕ → Environment)
    (home : ℕ → ℤ) : System ℕ ℤ StateRoot Label StoreFailure Unit where
  program i := (roles i).program { envs i with call := i } stateRoot (home i)
  home := home
  gone := process_ended home

/-- **The condition.** A lock is not created while a release stands between its read and
its unlink of that lock. -/
def NoReleasePending (l : Label) (s : StateRoot) : Prop :=
  ∀ key, l = .lock_created key → ∀ j, s.releasing j ≠ some key

section Ownership

variable (roles : ℕ → Role) (home : ℕ → ℤ)

/-- A thread is the coordinator of an execution. -/
def Coordinates (i : ℕ) (executionId : JsString) : Prop :=
  ∃ input profileSha256 reusePolicySha256 prepared work,
    roles i = .coordinator input profileSha256 reusePolicySha256 prepared work ∧
    input.lock.executionId = executionId

/-- Every execution has one coordinator at most: its id is a fresh UUID. -/
def DistinctExecutions : Prop :=
  ∀ i j executionId, Coordinates roles i executionId → Coordinates roles j executionId → i = j

/-- A record names the process of its coordinator. -/
def NamesProcess (record : ControlledBuildExecutionRecordV1) : Prop :=
  ∀ i, Coordinates roles i record.executionId → record.coordinatorPid = some (home i)

/-- The documents of the executions name the processes of their coordinators, the locks
are those of the coordinators that created them, and a coordinator that is still there
and works under a lock has created the file at its path. -/
structure Owned (s : StateRoot) : Prop where
  named : WellNamed (fun _ => NamesProcess roles home) s
  locks : ∀ key file, s.build_locks key = some file →
    ∃ executionId, Coordinates roles file.creator executionId ∧
      ∀ d ∈ file.document, d.executionId = executionId
  held : ∀ i key, s.holding i = some key → s.gone (home i) = false →
    ∃ file, s.build_locks key = some file ∧ file.creator = i

/-- The file of a lock is still what it was, or gone, or has got its document. -/
def Remains (before after : Option LockFile) : Prop :=
  ∀ file', after = some file' → ∃ file, before = some file ∧ file.creator = file'.creator ∧
    ∀ d ∈ file.document, d ∈ file'.document

/-- What a thread relies on. -/
structure LockRelies (i : ℕ) (s s' : StateRoot) : Prop where
  here : s'.gone (home i) = s.gone (home i)
  gone : ∀ pid, s.gone pid = true → s'.gone pid = true
  holding : s'.holding i = s.holding i
  releasing : s'.releasing i = s.releasing i
  own : s.gone (home i) = false → ∀ key file, s.build_locks key = some file →
    file.creator = i → s'.build_locks key = some file
  pending : ∀ key, s.releasing i = some key → Remains (s.build_locks key) (s'.build_locks key)

/-- What a step of a thread does. -/
structure LockGuarantees (i : ℕ) (l : Label) (s s' : StateRoot) : Prop where
  gone : s'.gone = s.gone
  holding : ∀ j, j ≠ i → s'.holding j = s.holding j
  releasing : ∀ j, j ≠ i → s'.releasing j = s.releasing j
  own : ∀ j, j ≠ i → s.gone (home j) = false → ∀ key file, s.build_locks key = some file →
    file.creator = j → s'.build_locks key = some file
  pending : ∀ j, j ≠ i → ∀ key, s.releasing j = some key →
    Remains (s.build_locks key) (s'.build_locks key)
  owned : Owned roles home s'
  removes : ∀ key executionId, l = .lock_released key executionId →
    ∃ file, s.build_locks key = some file ∧ ∃ d ∈ file.document, d.executionId = executionId

variable {roles home}

theorem Remains.refl (file : Option LockFile) : Remains file file :=
  fun file' h => ⟨file', h, rfl, fun _ hd => hd⟩

theorem LockGuarantees.relies {i j : ℕ} {l : Label} {s s' : StateRoot}
    (h : LockGuarantees roles home i l s s') (hj : j ≠ i) : LockRelies home j s s' where
  here := by rw [h.gone]
  gone := fun pid hpid => by rw [h.gone]; exact hpid
  holding := h.holding j hj
  releasing := h.releasing j hj
  own := h.own j hj
  pending := h.pending j hj

/-- The end of a process leaves the threads of the others undisturbed. -/
theorem ended_relies (pid : ℤ) (s : StateRoot) {j : ℕ} (hj : home j ≠ pid) :
    LockRelies home j s (process_ended home pid s) where
  here := Function.update_of_ne hj _ _
  gone := fun other hother => by
    unfold process_ended
    by_cases heq : other = pid
    · rw [heq]
      exact Function.update_self _ _ _
    · exact (Function.update_of_ne heq _ _).trans hother
  holding := rfl
  releasing := if_neg hj
  own := fun _ _ _ hfile _ => hfile
  pending := fun _ _ => Remains.refl _

theorem ended_owned (pid : ℤ) {s : StateRoot} (h : Owned roles home s) :
    Owned roles home (process_ended home pid s) where
  named := h.named.of_executions rfl
  locks := h.locks
  held := by
    intro i key hholding hhere
    refine h.held i key hholding ?_
    have hne : home i ≠ pid := by
      rintro rfl
      have hgone : (process_ended home (home i) s).gone (home i) = true :=
        Function.update_self _ _ _
      rw [hgone] at hhere
      cases hhere
    exact (Function.update_of_ne hne _ _).symm.trans hhere

/-! ## The record store -/

section Thread

variable {i : ℕ}

/-- The triples of a thread. -/
abbrev LockDoes (roles : ℕ → Role) (home : ℕ → ℤ) (i : ℕ) {α : Type} (P : StateRoot → Prop)
    (p : StoreProg α) (Q : α → StateRoot → Prop) (E : StoreFailure → StateRoot → Prop) : Prop :=
  Prog.Does (fun l s => NoReleasePending l s ∧ Owned roles home s) (LockRelies home i)
    (LockGuarantees roles home i) P p Q E

/-- An assertion about locks that the others leave true. -/
abbrev LockAssertion (home : ℕ → ℤ) (i : ℕ) (K : StateRoot → Prop) : Prop :=
  StoreAssertion (LockRelies home i) K

/-- A step that keeps the locks and writes only documents that name their process. -/
theorem guarantees_store {s s' : StateRoot} (hs : Owned roles home s) (hsame : SameLocks s s')
    (hnamed : WellNamed (fun _ => NamesProcess roles home) s') :
    LockGuarantees roles home i .quiet s s' := by
  obtain ⟨hlocks, hgone, hholding, hreleasing⟩ := hsame
  refine ⟨hgone, fun j _ => by rw [hholding], fun j _ => by rw [hreleasing], ?_, ?_,
    ⟨hnamed, ?_, ?_⟩, fun key executionId hl => (by cases hl)⟩
  · intro j _ _ key file hfile _
    rw [hlocks]
    exact hfile
  · intro j _ key _
    rw [hlocks]
    exact Remains.refl _
  · rw [hlocks]
    exact hs.locks
  · rw [hlocks, hgone, hholding]
    exact hs.held

/-- The record store keeps to the guarantees: a finished record keeps the execution and
the process of the running one. -/
theorem lock_rules : RecordRules (fun l s => NoReleasePending l s ∧ Owned roles home s)
    (LockGuarantees roles home i) fun _ => NamesProcess roles home where
  named := fun _ hA => hA.2.named
  guarantee := fun _ _ hA hsame hnamed => guarantees_store hA.2 hsame hnamed
  finished := fun _ _ _ _ _ h => h

theorem guarantees_self {s : StateRoot} (hs : Owned roles home s) :
    LockGuarantees roles home i .quiet s s :=
  guarantees_store hs ⟨rfl, rfl, rfl, rfl⟩ hs.named

end Thread

end Ownership

end LeanBun.Execution
