/-
Crashes of a coordinator.

A controlled build or a reuse transaction can stop at any of its steps. What it leaves
behind names it, so the recoveries that follow settle it exactly where the crash is
recoverable. Not every crash is: a lock that was created before the record was published
is never released again.
-/
import LeanBun.Execution.Recovered
import LeanBun.Execution.Records
import LeanBun.Execution.Lifecycle

set_option autoImplicit false

namespace LeanBun.Execution

open LeanBun.Lib LeanBun.Core

section Crash

variable {input : CoordinatorInput} {env : Environment} {stateRoot : JsString}

/-! ## Programs that leave the records alone -/

/-- A step that leaves the files of the executions. -/
def KeepsExecutions (_ : Label) (s s' : StateRoot) : Prop := s'.executions = s.executions

theorem keeps_perform_labelled {α : Type} {op : Operation} {label : StateRoot → Label}
    {f : StateRoot → Except StoreFailure α × StateRoot}
    (h : ∀ s, (f s).2.executions = s.executions) :
    (env.perform_labelled op label f).Steps KeepsExecutions := by
  unfold Environment.perform_labelled
  cases env.faults [] op with
  | some message => exact trivial
  | none => exact Prog.steps_atomic h

theorem keeps_inspect {α : Type} {op : Operation} {f : StateRoot → Except StoreFailure α} :
    (env.inspect op f).Steps KeepsExecutions := keeps_perform_labelled fun _ => rfl

theorem keeps_lock_directory {create : Bool} :
    (executionLockDirectory env create).Steps KeepsExecutions := by
  unfold executionLockDirectory make_lock_directory
  refine Prog.Steps.bind ?_ fun created => keeps_inspect.bind fun present => ?_
  · by_cases hcreate : create = true
    · rw [if_pos hcreate]
      exact keeps_perform_labelled fun _ => rfl
    · rw [if_neg hcreate]
      exact trivial
  · by_cases hcreated : created = true
    · rw [if_pos hcreated]
      exact keeps_inspect.bind fun _ => trivial
    · rw [if_neg hcreated]
      exact trivial

theorem keeps_load_lock {key : JsString} {note : BuildExecutionLockV1 → StateRoot → StateRoot}
    (hnote : ∀ d s, (note d s).executions = s.executions) :
    (loadBuildLock env stateRoot key note).Steps KeepsExecutions := by
  unfold loadBuildLock
  by_cases hkey : (!sha_pattern key) = true
  · rw [if_pos hkey]
    exact trivial
  · rw [if_neg hkey]
    refine keeps_lock_directory.bind fun present => ?_
    by_cases hpresent : (!present) = true
    · rw [if_pos hpresent]
      exact trivial
    · rw [if_neg hpresent]
      unfold inspect_lock read_lock
      refine keeps_inspect.bind fun mode => ?_
      cases mode with
      | none => exact trivial
      | some read_only =>
        refine Prog.Steps.bind (keeps_perform_labelled fun s => ?_) fun _ => trivial
        cases read_lock_result env (build_lock_path stateRoot key) read_only (s.build_locks key) with
        | error e => rfl
        | ok d => exact hnote d s

theorem keeps_change_lock {op : Operation} {key : JsString} {f : LockFile → LockFile} :
    (change_lock env op key f).Steps KeepsExecutions := by
  refine keeps_perform_labelled fun s => ?_
  dsimp only
  cases s.build_locks key with
  | none => rfl
  | some file =>
    dsimp only
    by_cases hcreator : file.creator = env.call
    · rw [if_pos hcreator]
      rfl
    · rw [if_neg hcreator]

theorem keeps_write_lock {document : BuildExecutionLockV1} :
    (write_lock env stateRoot document).Steps KeepsExecutions := by
  unfold write_lock
  refine keeps_change_lock.bind fun _ => keeps_inspect.bind fun _ => keeps_change_lock.bind fun _ =>
    keeps_inspect.bind fun _ => keeps_inspect.bind fun _ =>
    (keeps_load_lock fun _ _ => rfl).bind fun verified => ?_
  cases verified with
  | none => exact trivial
  | some verified =>
    dsimp only
    by_cases hsame : verified.document = document
    · rw [if_pos hsame]
      exact trivial
    · rw [if_neg hsame]
      exact trivial

theorem keeps_wait_for_owner {key : JsString} (attempts : ℕ) (failure : JsString) :
    (wait_for_owner env stateRoot key failure attempts).Steps KeepsExecutions := by
  induction attempts generalizing failure with
  | zero => exact trivial
  | succ attempts ih =>
    unfold wait_for_owner
    refine (Prog.Steps.attempt (keeps_load_lock fun _ _ => rfl)).bind fun existing => ?_
    cases existing with
    | error e => exact ih e.message
    | ok found =>
      cases found with
      | none => exact ih failure
      | some stored => exact trivial

theorem keeps_create_lock {key : JsString} :
    (create_lock env key).Steps KeepsExecutions := by
  refine keeps_perform_labelled fun s => ?_
  cases s.build_locks key <;> rfl

theorem keeps_unlink_created {key : JsString} :
    (unlink_created env key).Steps KeepsExecutions :=
  (Prog.Steps.attempt (keeps_perform_labelled fun _ => rfl)).bind fun _ => trivial

theorem keeps_release {expected : ExpectedLock} :
    (releaseBuildLock env stateRoot expected).Steps KeepsExecutions := by
  have hnote : ∀ d s, (note_release env expected d s).executions = s.executions := by
    intro d s
    unfold note_release
    by_cases hmatches : expected.matches_lock d = true
    · rw [if_pos hmatches]
    · rw [if_neg hmatches]
  have hunlink : (unlink_released env expected).Steps KeepsExecutions := by
    unfold unlink_released
    cases env.faults [] .unlink_lock with
    | some message => exact Prog.steps_atomic fun _ => rfl
    | none =>
      refine Prog.steps_atomic fun s => ?_
      cases s.build_locks expected.key <;> rfl
  unfold releaseBuildLock
  by_cases hkey : expected.key ≠ build_lock_key expected.projectId expected.imageId
  · rw [if_pos hkey]
    exact trivial
  · rw [if_neg hkey]
    refine (keeps_load_lock hnote).bind fun existing => ?_
    cases existing with
    | none => exact trivial
    | some existing =>
      dsimp only
      by_cases hmatches : (!expected.matches_lock existing.document) = true
      · rw [if_pos hmatches]
        exact trivial
      · rw [if_neg hmatches]
        exact hunlink.bind fun _ => keeps_inspect.bind fun _ => trivial

/-! ## What a crash leaves -/

/-- The records of the coordinator's execution name it. -/
def OwnRecords (input : CoordinatorInput) : JsString → ControlledBuildExecutionRecordV1 → Prop :=
  fun id d => id = input.lock.executionId → NamesInput input d

/-- The triples of a coordinator that runs by itself: its records name it throughout. -/
abbrev CrashDoes (input : CoordinatorInput) {α : Type} (p : StoreProg α)
    (Q : α → StateRoot → Prop) : Prop :=
  Prog.Does (fun _ => WellNamed (OwnRecords input)) (fun _ _ => False)
    (fun _ _ => WellNamed (OwnRecords input)) (fun _ => True) p Q fun _ _ => True

theorem crash_rules : RecordRules (fun _ => WellNamed (OwnRecords input))
    (fun _ _ => WellNamed (OwnRecords input)) (OwnRecords input) where
  named := fun _ hs => hs
  guarantee := fun _ _ _ _ hs => hs
  finished := fun _ _ _ _ _ h hid => ⟨(h hid).executionId, (h hid).projectId, (h hid).imageId,
    (h hid).buildLockKey, (h hid).coordinatorPid⟩

theorem crash_assertion : StoreAssertion (fun _ _ => False) fun _ => True :=
  ⟨fun _ _ _ _ => trivial, fun _ _ _ _ => trivial⟩

theorem crash_stable {P : StateRoot → Prop} : Prog.Stable (fun _ _ => False) P :=
  fun _ _ h => h.elim

theorem crash_pure {α : Type} {a : α} {Q : α → StateRoot → Prop} (h : ∀ s, Q a s) :
    CrashDoes input (pure a) Q := Prog.does_pure crash_stable fun s _ => h s

theorem crash_keeps {α : Type} {p : StoreProg α} (h : p.Steps KeepsExecutions) :
    CrashDoes input p fun _ _ => True :=
  Prog.does_of_steps h fun _ _ _ hs hsame => hs.of_executions hsame

/-- The records name their coordinator after a crash, too. -/
theorem CrashDoes.crash {α : Type} {p : StoreProg α} {Q : α → StateRoot → Prop}
    (h : CrashDoes input p Q) {s : StateRoot} (hs : WellNamed (OwnRecords input) s) (n : ℕ) :
    WellNamed (OwnRecords input) (p.crash n s) :=
  Prog.Guarded.crash (I := WellNamed (OwnRecords input)) (fun _ _ hs => hs)
    (fun _ _ _ hs => hs) (h.guarded s trivial) hs n

/-- What is acquired is the lock of the input. -/
theorem crash_acquire : CrashDoes input (acquireBuildLock env stateRoot input.lock)
    fun stored _ => stored.document = lock_document input.lock := by
  unfold acquireBuildLock
  by_cases hvalid : (!valid_lock env.date_parse (lock_document input.lock)) = true
  · rw [if_pos hvalid]
    exact Prog.does_fail crash_stable fun _ _ => trivial
  · rw [if_neg hvalid]
    refine (crash_keeps keeps_lock_directory).bind fun _ => Prog.Does.bind
      (Prog.does_map_error (crash_keeps keeps_create_lock)) fun created => ?_
    by_cases hcreated : created = true
    · rw [if_pos hcreated]
      have hwrite : CrashDoes input (write_lock (env.part 1) stateRoot (lock_document input.lock))
          fun stored _ => stored.document = lock_document input.lock := by
        unfold write_lock
        refine (crash_keeps keeps_change_lock).bind fun _ => (crash_keeps keeps_inspect).bind fun _ =>
          (crash_keeps keeps_change_lock).bind fun _ => (crash_keeps keeps_inspect).bind fun _ =>
          (crash_keeps keeps_inspect).bind fun _ =>
          (crash_keeps (keeps_load_lock fun _ _ => rfl)).bind fun verified => ?_
        cases verified with
        | none => exact Prog.does_fail crash_stable fun _ _ => trivial
        | some verified =>
          dsimp only
          by_cases hsame : verified.document = lock_document input.lock
          · rw [if_pos hsame]
            exact crash_pure fun _ => hsame
          · rw [if_neg hsame]
            exact Prog.does_fail crash_stable fun _ _ => trivial
      refine (Prog.does_attempt hwrite).bind fun written => ?_
      cases written with
      | ok stored => exact Prog.does_pure crash_stable fun _ hs => hs
      | error e =>
        exact (crash_keeps keeps_unlink_created).bind fun _ =>
          Prog.does_fail crash_stable fun _ _ => trivial
    · rw [if_neg hcreated]
      -- waiting ends in an error
      have hwait : ∀ attempts failure, CrashDoes input
          (wait_for_owner (env.part 2) stateRoot (lock_document input.lock).key failure attempts)
          fun _ _ => False := by
        intro attempts
        induction attempts with
        | zero => exact fun _ => Prog.does_fail crash_stable fun _ _ => trivial
        | succ attempts ih =>
          intro failure
          unfold wait_for_owner
          refine (Prog.does_attempt (crash_keeps (keeps_load_lock fun _ _ => rfl))).bind
            fun existing => ?_
          cases existing with
          | error e => exact ih e.message
          | ok found =>
            cases found with
            | none => exact ih failure
            | some stored => exact Prog.does_fail crash_stable fun _ _ => trivial
      exact (hwait 100 []).weaken (fun _ hs => hs) (fun _ _ hs => hs.elim) fun _ _ hs => hs

theorem crash_hold {key : Option JsString} :
    CrashDoes input (hold env key) fun _ _ => True :=
  crash_keeps (Prog.steps_write fun _ => rfl)

theorem crash_begin {identity : ExecutionIdentity} (hid : NamesInput input identity.started) :
    CrashDoes input (beginExecutionRecord env stateRoot identity) fun _ _ => True :=
  (does_begin_record crash_rules.store crash_assertion fun _ => hid).weaken (fun _ hs => hs)
    (fun _ _ _ => trivial) fun _ _ hs => hs

theorem crash_load {id : JsString} :
    CrashDoes input (loadExecutionRecord env stateRoot id) fun _ _ => True :=
  (does_load_record crash_rules.store crash_assertion).weaken (fun _ hs => hs) (fun _ _ _ => trivial)
    fun _ _ hs => hs

theorem crash_finalize {id finishedAt : JsString} {status : TerminalStatus}
    {outcome : ControlledBuildExecutionOutcomeV1} :
    CrashDoes input (finalizeExecutionRecord env stateRoot id status finishedAt outcome)
      fun _ _ => True :=
  (does_finalize_record crash_rules crash_assertion).weaken (fun _ hs => hs)
    (fun _ _ _ => trivial) fun _ _ hs => hs

theorem crash_end_work {env' : Environment} {lock : BuildExecutionLockV1}
    {report : ReleaseStatus → CoordinatorReport} : CrashDoes input (do
      hold env none
      let result ← releaseBuildLock env' stateRoot lock.expected
      return report result) fun _ _ => True :=
  crash_hold.bind fun _ => (crash_keeps keeps_release).bind fun _ => crash_pure fun _ => trivial

/-- **A coordinator.** -/
theorem crash_run_execution {profileSha256 reusePolicySha256 : Option JsString} {prepared : Bool}
    {work : Work} : CrashDoes input
      (run_execution env stateRoot input profileSha256 reusePolicySha256 prepared work)
      fun _ _ => True := by
  have hacquire : CrashDoes input (acquireBuildLock (env.part 0) stateRoot input.lock)
      fun stored _ => True ∧ stored.document = lock_document input.lock :=
    crash_acquire.weaken (fun _ hs => hs) (fun _ _ hs => ⟨trivial, hs⟩) fun _ _ hs => hs
  unfold run_execution
  refine (Prog.does_attempt hacquire).bind fun acquired => ?_
  cases acquired with
  | error e => exact crash_pure fun _ => trivial
  | ok lock =>
    refine Prog.does_of_fact fun hlock => ?_
    refine crash_hold.bind fun _ => ?_
    have hbegin : CrashDoes input (if prepared then beginExecutionRecord (env.part 1) stateRoot
        (input.identity profileSha256 reusePolicySha256 lock.document.key)
        else .fail (.node .other [])) fun _ _ => True := by
      by_cases hprepared : prepared = true
      · rw [if_pos hprepared, hlock]
        exact crash_begin ⟨rfl, rfl, rfl, rfl, rfl⟩
      · rw [if_neg hprepared]
        exact Prog.does_fail crash_stable fun _ _ => trivial
    refine (Prog.does_attempt hbegin).bind fun begun => ?_
    cases begun with
    | error e => exact crash_end_work
    | ok stored =>
      cases work with
      | unreaped =>
        have hload : CrashDoes input (loadExecutionRecord (env.part 3) stateRoot
            input.lock.executionId) fun _ _ => True := crash_load
        exact hload.bind fun _ => crash_pure fun _ => trivial
      | finished status finishedAt outcome =>
        have hfinal : CrashDoes input (finalizeExecutionRecord (env.part 4) stateRoot
            input.lock.executionId status finishedAt outcome) fun _ _ => True := crash_finalize
        exact hfinal.bind fun _ => crash_end_work

/-- The state in which a crash leaves the root, with the process gone. -/
def crash_state (env : Environment) (stateRoot : JsString) (input : CoordinatorInput)
    (profileSha256 reusePolicySha256 : Option JsString) (prepared : Bool) (work : Work) (n : ℕ)
    (s : StateRoot) : StateRoot :=
  process_gone input.lock.coordinatorPid
    ((run_execution env stateRoot input profileSha256 reusePolicySha256 prepared work).crash n s)

theorem crash_state_crashed {profileSha256 reusePolicySha256 : Option JsString} {prepared : Bool}
    {work : Work} {s : StateRoot}
    (hfresh : s.executions input.lock.executionId = ⟨none, none, fun _ => none, []⟩) (n : ℕ) :
    Crashed input
      (crash_state env stateRoot input profileSha256 reusePolicySha256 prepared work n s) := by
  have hnamed : WellNamed (OwnRecords input) s := by
    constructor
    · rintro id file hfile d hd rfl
      rw [hfresh] at hfile
      cases hfile
    · rintro id j file hfile d hd rfl
      rw [hfresh] at hfile
      cases hfile
  have hrun : CrashDoes input (run_execution env stateRoot input profileSha256 reusePolicySha256
      prepared work) fun _ _ => True := crash_run_execution
  have hcrash := hrun.crash hnamed n
  exact ⟨fun file hfile d hd => hcrash.records _ file hfile d hd rfl, Function.update_self _ _ _⟩

/-! ## Recovery after a crash -/

/-- Another execution of the project with the image. -/
def SamePair (input : CoordinatorInput) (later : LockIdentity) : Prop :=
  later.projectId = input.lock.projectId ∧ later.imageId = input.lock.imageId

/-- The lock of a pair is free once the crash is settled. -/
theorem Settled.acquires {s : StateRoot} (hsettled : Settled input s) (henv : env.Quiet)
    {later : LockIdentity} (hpair : SamePair input later)
    (hvalid : valid_lock env.date_parse (lock_document later) = true)
    (hbounded : byte_len (lock_document later).canonical_text ≤ 32 * 1024) :
    ((acquireBuildLock env stateRoot later).run s).1.isOk = true := by
  have hkey : (lock_document later).key = (lock_document input.lock).key := by
    unfold lock_document
    rw [hpair.1, hpair.2]
  have hfree : s.build_locks (lock_document later).key = none := by
    rw [hkey]
    exact hsettled.1
  have hacquire : ∃ stored : StoredBuildLock, _ ∧ (acquireBuildLock env stateRoot later).run s =
      (.ok stored, _) := run_acquire henv hvalid hbounded hfree
  obtain ⟨stored, -, hrun⟩ := hacquire
  rw [hrun]
  rfl

/-- **Recovery of a crashed coordinator.** Wherever it stops, the recoveries after it come
to a terminal record, or to none, with the lock free, exactly where the crash has left a
recoverable state; and then the pair can be locked again. -/
theorem crash_recovery (env : Environment) (stateRoot : JsString) (input : CoordinatorInput)
    (profileSha256 reusePolicySha256 : Option JsString) (prepared : Bool) (work : Work) (n : ℕ)
    (s : StateRoot) (date_parse : JsString → Option ℤ) (attempts : ℕ → RecoveryAttempt)
    (evidence : ℕ → RecoveryFacts)
    (hfresh : s.executions input.lock.executionId = ⟨none, none, fun _ => none, []⟩)
    (hfine : ∀ k, (attempts k).Fine date_parse (evidence k))
    (htemporary : ∀ k, ((crash_state env stateRoot input profileSha256 reusePolicySha256 prepared
      work n s).executions input.lock.executionId).temporaries (attempts k).env.call = none) :
    ((∃ k, Settled input (after_recoveries stateRoot input.lock.executionId attempts
        (crash_state env stateRoot input profileSha256 reusePolicySha256 prepared work n s) k)) ↔
      Recoverable date_parse input (attempts 0).audit.finishedAt (evidence 0)
        (crash_state env stateRoot input profileSha256 reusePolicySha256 prepared work n s)) ∧
    ∀ k, Settled input (after_recoveries stateRoot input.lock.executionId attempts
        (crash_state env stateRoot input profileSha256 reusePolicySha256 prepared work n s) k) →
      ∀ (env' : Environment) (later : LockIdentity), env'.Quiet → SamePair input later →
        valid_lock env'.date_parse (lock_document later) = true →
        byte_len (lock_document later).canonical_text ≤ 32 * 1024 →
        ((acquireBuildLock env' stateRoot later).run (after_recoveries stateRoot
          input.lock.executionId attempts (crash_state env stateRoot input profileSha256
            reusePolicySha256 prepared work n s) k)).1.isOk = true :=
  ⟨recoveries_settle hfine (crash_state_crashed hfresh n) htemporary,
    fun _ hsettled _ _ henv hpair hvalid hbounded =>
      hsettled.acquires henv hpair hvalid hbounded⟩

end Crash

/-! ## Crashes between the steps -/

/-- A coordinator of the sample project, in the process 7. -/
def sample_input : CoordinatorInput where
  lock := {
    executionId := sample_id
    projectId := project_id (js "/p")
    projectPath := js "/p"
    imageId := sample_sha
    target := js "Main"
    coordinatorPid := 7
    acquiredAt := js "2026-01-01T00:00:00.000Z" }
  bindingSha256 := sample_sha
  attestationSha256 := sample_sha
  dependencyArtifactBefore := sample_sha
  projectProtectedBefore := sample_sha
  projectProtectedRecordCount := 0
  startedAt := js "2026-01-01T00:00:00.000Z"

def sample_facts : RecoveryFacts := ⟨true, true, true, true, true, none, none⟩

/-- Nothing is in the way of a recovery. -/
def sample_attempt : RecoveryAttempt where
  env := { quiet_environment with call := 1 }
  audit := {
    process_state_known := true
    project_canonical := true
    project_clear := true
    provider := true
    evidence := some sample_facts
    finishedAt := js "2026-01-01T00:00:01.000Z" }

theorem sample_attempt_fine : sample_attempt.Fine quiet_environment.date_parse sample_facts :=
  ⟨fun _ _ => rfl, rfl, rfl, rfl, rfl, rfl, rfl⟩

/-- The coordinator stops after some steps, in a root with nothing in it. -/
def sample_crash (n : ℕ) : StateRoot :=
  crash_state quiet_environment [] sample_input (some sample_sha) none true .unreaped n fresh_root

/-- `Settled`, decided. -/
def is_settled (input : CoordinatorInput) (s : StateRoot) : Bool :=
  (s.build_locks (lock_document input.lock).key).isNone &&
    (s.executions input.lock.executionId).record.all fun file =>
      file.document.any fun d => decide (d.status ≠ .running)

theorem settled_of_is_settled {input : CoordinatorInput} {s : StateRoot}
    (h : is_settled input s = true) : Settled input s := by
  unfold is_settled at h
  rw [Bool.and_eq_true, Option.isNone_iff_eq_none] at h
  refine ⟨h.1, fun file hfile => ?_⟩
  have hall := h.2
  rw [hfile, Option.all_some] at hall
  cases hdocument : file.document with
  | none =>
    rw [hdocument] at hall
    exact absurd hall Bool.false_ne_true
  | some d =>
    rw [hdocument, Option.any_some, decide_eq_true_eq] at hall
    exact ⟨d, rfl, hall⟩

/-- A lock file that has been created, and a record that has not; and the crash after the
record has been published, with what a recovery makes of it. -/
theorem sample_crashes :
    (((sample_crash 4).build_locks (lock_document sample_input.lock).key).isSome &&
      ((sample_crash 4).executions sample_input.lock.executionId).record.isNone &&
      (((sample_crash 4).executions sample_input.lock.executionId).temporaries
        sample_attempt.env.call).isNone &&
      (((sample_crash 30).executions sample_input.lock.executionId).temporaries
        sample_attempt.env.call).isNone &&
      is_settled sample_input (recovered [] sample_input.lock.executionId sample_attempt
        (sample_crash 30))) = true := by
  decide +kernel

/-- The crash after the record has been published can be recovered. -/
theorem crash_recovery_sample :
    Recoverable quiet_environment.date_parse sample_input sample_attempt.audit.finishedAt
      sample_facts (sample_crash 30) := by
  have hcrashes := sample_crashes
  simp only [Bool.and_eq_true, Option.isNone_iff_eq_none] at hcrashes
  obtain ⟨⟨⟨⟨-, -⟩, -⟩, htemporary⟩, hsettled⟩ := hcrashes
  unfold sample_crash at htemporary hsettled ⊢
  exact (crash_recovery quiet_environment [] sample_input (some sample_sha) none true .unreaped 30
    fresh_root quiet_environment.date_parse (fun _ => sample_attempt) (fun _ => sample_facts) rfl
    (fun _ => sample_attempt_fine) fun _ => htemporary).1.mp ⟨1, settled_of_is_settled hsettled⟩

/-- **A lock that stays.** When the coordinator stops after it has created its lock, no
number of recoveries removes it. -/
theorem crash_never_settles : ¬∃ k, Settled sample_input
    (after_recoveries [] sample_input.lock.executionId (fun _ => sample_attempt) (sample_crash 4) k) := by
  have hcrashes := sample_crashes
  simp only [Bool.and_eq_true, Option.isNone_iff_eq_none] at hcrashes
  obtain ⟨⟨⟨⟨hlock, hrecord⟩, htemporary⟩, -⟩, -⟩ := hcrashes
  have hcrashed : Crashed sample_input (sample_crash 4) := crash_state_crashed rfl 4
  have hfine : ∀ _ : ℕ, sample_attempt.Fine quiet_environment.date_parse sample_facts :=
    fun _ => sample_attempt_fine
  intro hsettles
  rcases (recoveries_settle hfine hcrashed fun _ => htemporary).mp hsettles with
    ⟨hfree, -⟩ | ⟨d, lock, h, -⟩
  · rw [hfree] at hlock
    exact absurd hlock Bool.false_ne_true
  · -- there is no record to recover
    obtain ⟨-, -, file, hfile, -⟩ := h.loads
    rw [hrecord] at hfile
    cases hfile

end LeanBun.Execution
