/-
One holder of a build lock.

A recovery releases a lock after it has found the process of the coordinator gone. With
that every thread of the system keeps its guarantee. In a run in which no lock is created
while a release of it stands between its read and its unlink, what a release unlinks names
its execution, and two coordinators that are there never work under one lock. Without the
condition neither is so.
-/
import LeanBun.Execution.Holders
import LeanBun.Execution.Lifecycle

set_option autoImplicit false

namespace LeanBun.Execution

open LeanBun.Lib

section Recovery

variable {roles : ℕ → Role} {home : ℕ → ℤ} {i : ℕ} {env : Environment} {stateRoot : JsString}

/-! ## Recoveries -/

/-- What a coordinator's record names is gone, so its lock can be released. -/
theorem gone_releasable {record : ControlledBuildExecutionRecordV1} {pid : ℤ}
    (hnames : NamesProcess roles home record) (hpid : record.coordinatorPid = some pid)
    {s : StateRoot} (hs : s.gone pid = true) : Releasable roles home i record.executionId s := by
  intro c hc
  have hhome : some pid = some (home c) := hpid.symm.trans (hnames c hc)
  rw [Option.some.injEq] at hhome
  rw [← hhome]
  exact Or.inr hs

theorem does_recover_running {executionId : JsString} {audit : RecoveryAudit} {pid : ℤ}
    {lock : BuildExecutionLockV1} (hcall : env.call = i) :
    LockDoes roles home i (Releasable roles home i lock.executionId)
      (recover_running env stateRoot executionId audit pid lock) (fun _ _ => True)
      fun _ _ => True := by
  have hK : LockAssertion home i (Releasable roles home i lock.executionId) :=
    releasable_assertion _
  unfold recover_running
  by_cases hprovider : (!audit.provider) = true
  · rw [if_pos hprovider]
    exact Prog.does_pure hK.stable fun _ _ => trivial
  · rw [if_neg hprovider]
    cases audit.evidence with
    | none => exact Prog.does_fail hK.stable fun _ _ => trivial
    | some facts =>
      have hrelease : LockDoes roles home i (Releasable roles home i lock.executionId)
          (releaseBuildLock (env.part 1) stateRoot lock.expected)
          (fun _ => Releasable roles home i lock.executionId) fun _ _ => True :=
        (does_release (show (env.part 1).call = i from hcall)).weaken (fun _ hs => hs)
          (fun _ _ hs => hs) fun _ _ _ => trivial
      refine Prog.Does.bind ((does_finalize_record lock_rules hK).weaken (fun _ hs => hs) (fun _ _ hs => hs.1)
        fun _ _ _ => trivial) fun _ => hrelease.bind fun _ => ?_
      exact Prog.does_pure hK.stable fun _ _ => trivial

theorem does_recover_idle {executionId key : JsString} {audit : RecoveryAudit} {pid : ℤ}
    {record : ControlledBuildExecutionRecordV1} {lock : Option StoredBuildLock}
    (hcall : env.call = i)
    (hlock : ∀ stored, lock = some stored → stored.document.executionId = record.executionId) :
    LockDoes roles home i (Releasable roles home i record.executionId)
      (recover_idle env stateRoot executionId audit record key pid lock) (fun _ _ => True)
      fun _ _ => True := by
  have hK : LockAssertion home i (Releasable roles home i record.executionId) :=
    releasable_assertion _
  unfold recover_idle
  by_cases hstatus : record.status ≠ .running
  · rw [if_pos hstatus]
    have hrelease : LockDoes roles home i (Releasable roles home i record.executionId)
        (releaseBuildLock (env.part 0) stateRoot
          ⟨key, record.executionId, record.projectId, record.imageId⟩)
        (fun _ => Releasable roles home i record.executionId) fun _ _ => True :=
      (does_release (show (env.part 0).call = i from hcall)).weaken (fun _ hs => hs)
        (fun _ _ hs => hs) fun _ _ _ => trivial
    exact hrelease.bind fun _ => Prog.does_pure hK.stable fun _ _ => trivial
  · rw [if_neg hstatus]
    cases lock with
    | none => exact Prog.does_pure hK.stable fun _ _ => trivial
    | some stored =>
      rw [← hlock stored rfl]
      exact does_recover_running hcall

/-- `kill(pid, 0)`. -/
theorem does_process_state {audit : RecoveryAudit} {pid : ℤ} :
    LockDoes roles home i (fun _ => True) (coordinatorProcessState audit pid)
      (fun state s => state = .absent → s.gone pid = true) fun _ _ => True := by
  unfold coordinatorProcessState Prog.read
  refine Prog.does_atomic true_assertion.stable
    (fun state s s' hrely hs hstate => hrely.gone pid (hs hstate))
    (fun _ => true_assertion.stable) fun s _ hA => ⟨guarantees_self hA.2, ?_⟩
  show (if !audit.process_state_known then CoordinatorProcessState.unknown
    else if s.gone pid then .absent else .active) = .absent → s.gone pid = true
  by_cases hgone : s.gone pid = true
  · exact fun _ => hgone
  · rw [if_neg hgone]
    cases audit.process_state_known with
    | false => exact fun h => (by cases h)
    | true => exact fun h => (by cases h)

theorem does_recover_record {executionId key : JsString} {audit : RecoveryAudit} {pid : ℤ}
    {record : ControlledBuildExecutionRecordV1} (hcall : env.call = i)
    (hnames : NamesProcess roles home record) (hpid : record.coordinatorPid = some pid) :
    LockDoes roles home i (fun _ => True)
      (recover_record env stateRoot executionId audit record key pid) (fun _ _ => True)
      fun _ _ => True := by
  have hblocked : ∀ {P : StateRoot → Prop} {diagnostic : RecoveryDiagnostic},
      Prog.Stable (LockRelies home i) P →
      LockDoes roles home i P (pure (blocked diagnostic)) (fun _ _ => True) fun _ _ => True :=
    fun hP => Prog.does_pure hP fun _ _ => trivial
  unfold recover_record
  refine (does_load_lock true_assertion).bind fun lock => ?_
  by_cases hconflict : (lock.any fun lock => !lock_matches record lock.document) = true
  · rw [if_pos hconflict]
    exact hblocked true_assertion.stable
  · rw [if_neg hconflict]
    by_cases hfields : record.status = .running ∧
        (record.projectProtectedBefore = none ∨ record.projectProtectedRecordCount = none)
    · rw [if_pos hfields]
      exact hblocked true_assertion.stable
    · rw [if_neg hfields]
      refine does_process_state.bind fun state => ?_
      have hstable : Prog.Stable (LockRelies home i)
          (fun s => state = .absent → s.gone pid = true) :=
        fun s s' hrely hs hstate => hrely.gone pid (hs hstate)
      by_cases hactive : state = .active
      · rw [if_pos hactive]
        exact hblocked hstable
      · rw [if_neg hactive]
        by_cases hunknown : state = .unknown
        · rw [if_pos hunknown]
          exact hblocked hstable
        · rw [if_neg hunknown]
          have habsent : state = .absent := by
            cases state with
            | active => exact absurd rfl hactive
            | absent => rfl
            | unknown => exact absurd rfl hunknown
          by_cases hcanonical : (!audit.project_canonical) = true
          · rw [if_pos hcanonical]
            exact hblocked hstable
          · rw [if_neg hcanonical]
            by_cases hclear : (!audit.project_clear) = true
            · rw [if_pos hclear]
              exact hblocked hstable
            · rw [if_neg hclear]
              -- a lock that was found is the lock of the record
              have hlock : ∀ stored, lock = some stored →
                  stored.document.executionId = record.executionId := by
                rintro stored rfl
                rw [Option.any_some, Bool.not_eq_true, Bool.not_eq_false'] at hconflict
                unfold lock_matches at hconflict
                simp only [Bool.and_eq_true, decide_eq_true_eq] at hconflict
                exact hconflict.1.1.1.1.1.2
              have hidle : LockDoes roles home i (Releasable roles home i record.executionId)
                  (recover_idle (env.part 1) stateRoot executionId audit record key pid lock)
                  (fun _ _ => True) fun _ _ => True := does_recover_idle hcall hlock
              exact hidle.weaken (fun s hs => gone_releasable hnames hpid (hs habsent))
                (fun _ _ hs => hs) fun _ _ hs => hs

/-- **A recovery.** -/
theorem does_recover {executionId : JsString} {audit : RecoveryAudit} (hcall : env.call = i) :
    LockDoes roles home i (fun _ => True) (recoverStaleExecution env stateRoot executionId audit)
      (fun _ _ => True) fun _ _ => True := by
  unfold recoverStaleExecution
  refine (does_load_record lock_rules.store true_assertion).bind fun stored => Prog.does_of_fact fun hnames => ?_
  cases hkey : stored.document.buildLockKey with
  | none => exact Prog.does_pure true_assertion.stable fun _ _ => trivial
  | some key =>
    cases hpid : stored.document.coordinatorPid with
    | none => exact Prog.does_pure true_assertion.stable fun _ _ => trivial
    | some pid => exact does_recover_record hcall hnames hpid

/-! ## The system -/

theorem coordinates_role {input : CoordinatorInput} {profileSha256 reusePolicySha256 :
    Option JsString} {prepared : Bool} {work : Work}
    (hrole : roles i = .coordinator input profileSha256 reusePolicySha256 prepared work) :
    Coordinates roles i input.lock.executionId :=
  ⟨input, profileSha256, reusePolicySha256, prepared, work, hrole, rfl⟩

theorem does_role {envs : ℕ → Environment} (hdistinct : DistinctExecutions roles) (i : ℕ) :
    LockDoes roles home i (Idle home i) ((lock_system stateRoot roles envs home).program i)
      (fun _ _ => True) fun _ _ => True := by
  have hdone : LockDoes roles home i (fun _ => True) (pure ()) (fun _ _ => True)
      fun _ _ => True := Prog.does_pure true_assertion.stable fun _ _ => trivial
  unfold lock_system Role.program
  dsimp only
  cases hrole : roles i with
  | coordinator input profileSha256 reusePolicySha256 prepared work =>
    refine Prog.Does.bind (M := fun _ _ => True) ?_ fun _ => hdone
    have hcoordinates := coordinates_role hrole
    have hi : Coordinates roles i (input.in_process (home i)).lock.executionId := hcoordinates
    exact does_run_execution rfl hdistinct hi rfl
  | recovery executionId audit =>
    refine Prog.Does.bind (M := fun _ _ => True) ?_ fun _ => hdone
    have hrecover : LockDoes roles home i (fun _ => True)
        (recoverStaleExecution { envs i with call := i } stateRoot executionId audit)
        (fun _ _ => True) fun _ _ => True := does_recover rfl
    exact hrecover.weaken (fun _ _ => trivial) (fun _ _ hs => hs) fun _ _ hs => hs

theorem fresh_owned : Owned roles home fresh_root where
  named := ⟨fun _ _ h => absurd h (Option.some_ne_none _).symm,
    fun _ _ _ h => absurd h (Option.some_ne_none _).symm⟩
  locks := fun _ _ h => absurd h (Option.some_ne_none _).symm
  held := fun _ _ h => absurd h (Option.some_ne_none _).symm

/-- What holds of every pool of a run in which the condition is met. -/
theorem run_owned {envs : ℕ → Environment} (hdistinct : DistinctExecutions roles)
    {pool : Pool ℕ StateRoot Label StoreFailure Unit}
    (hrun : (lock_system stateRoot roles envs home).Run NoReleasePending fresh_root pool) :
    Owned roles home pool.shared ∧ ∀ i p, pool.threads i = some p →
      p.Guarded (fun l s => NoReleasePending l s ∧ Owned roles home s) (LockRelies home i)
        (LockGuarantees roles home i) (Prog.ends (fun _ _ => True) fun _ _ => True)
        pool.shared :=
  hrun.guarded fresh_owned (fun i => (does_role hdistinct i).guarded _ ⟨rfl, rfl⟩)
    (fun _ _ _ _ _ _ hstep => ⟨hstep.owned, fun _ hj => hstep.relies hj⟩)
    fun pid _ hs => ⟨ended_owned pid hs, fun _ hj => ended_relies pid _ hj⟩

end Recovery

/-- **A release removes the lock of its execution.** In every run of coordinators and
recoveries in which no lock is created while a release stands between its read of that
lock and its unlink: what a release unlinks names its execution, and of two coordinators
that are there and work under one lock, one is the other. -/
theorem lock_ownership (stateRoot : JsString) (roles : ℕ → Role) (envs : ℕ → Environment)
    (home : ℕ → ℤ) (hdistinct : DistinctExecutions roles)
    (pool : Pool ℕ StateRoot Label StoreFailure Unit)
    (hrun : (lock_system stateRoot roles envs home).Run NoReleasePending fresh_root pool) :
    (∀ i act next key executionId, pool.threads i = some (.step act next) →
      (act pool.shared).1 = .lock_released key executionId →
      ∃ file, pool.shared.build_locks key = some file ∧
        ∃ document ∈ file.document, document.executionId = executionId) ∧
    ∀ i j key, pool.shared.gone (home i) = false → pool.shared.gone (home j) = false →
      pool.shared.holding i = some key → pool.shared.holding j = some key → i = j := by
  obtain ⟨howned, hthreads⟩ := run_owned hdistinct hrun
  refine ⟨?_, ?_⟩
  · intro i act next key executionId hthread hlabel
    have hallowed : NoReleasePending (act pool.shared).1 pool.shared := by
      intro other hother
      rw [hlabel] at hother
      cases hother
    exact ((hthreads i _ hthread).step ⟨hallowed, howned⟩).1.removes key executionId hlabel
  · intro i j key hi hj hholding hholding'
    obtain ⟨file, hfile, hcreator⟩ := howned.held i key hholding hi
    obtain ⟨file', hfile', hcreator'⟩ := howned.held j key hholding' hj
    rw [hfile, Option.some.injEq] at hfile'
    rw [← hcreator, hfile', hcreator']

/-! ## Two recoveries of one execution -/

/-- The lock of an execution; the process id is that of its thread. -/
def sample_lock (n : ℕ) : LockIdentity where
  executionId := js "00000000-0000-4000-8000-00000000000" ++ js_integer n
  projectId := project_id (js "/p")
  projectPath := js "/p"
  imageId := sample_sha
  target := js "Main"
  coordinatorPid := 0
  acquiredAt := js "2026-01-01T00:00:00.000Z"

def sample_coordinator (n : ℕ) (work : Work) : Role :=
  .coordinator {
    lock := sample_lock n
    bindingSha256 := sample_sha
    attestationSha256 := sample_sha
    dependencyArtifactBefore := sample_sha
    projectProtectedBefore := sample_sha
    projectProtectedRecordCount := 0
    startedAt := js "2026-01-01T00:00:00.000Z" } (some sample_sha) none true work

/-- The process of the coordinator is gone, and nothing is in the way. -/
def sample_audit : RecoveryAudit where
  process_state_known := true
  project_canonical := true
  project_clear := true
  provider := true
  evidence := none
  finishedAt := js "2026-01-01T00:00:01.000Z"

/-- A coordinator that finishes, and recoveries of its execution; two other coordinators
of the same project and image. -/
def sample_roles : ℕ → Role
  | 0 => sample_coordinator 0
      (.finished .failed (js "2026-01-01T00:00:01.000Z") sample_outcome)
  | 3 => sample_coordinator 3 .unreaped
  | 4 => sample_coordinator 4 .unreaped
  | _ => .recovery (sample_lock 0).executionId sample_audit

/-- Every thread has its own process. -/
def sample_home (i : ℕ) : ℤ := i + 7

def sample_locks : System ℕ ℤ StateRoot Label StoreFailure Unit :=
  lock_system [] sample_roles (fun _ => quiet_environment) sample_home

theorem sample_roles_coordinates {i : ℕ} {executionId : JsString}
    (h : Coordinates sample_roles i executionId) :
    (i = 0 ∨ i = 3 ∨ i = 4) ∧ executionId = (sample_lock i).executionId := by
  obtain ⟨input, profileSha256, reusePolicySha256, prepared, work, hrole, hid⟩ := h
  unfold sample_roles at hrole
  split at hrole
  · cases hrole
    exact ⟨Or.inl rfl, hid.symm⟩
  · cases hrole
    exact ⟨Or.inr (Or.inl rfl), hid.symm⟩
  · cases hrole
    exact ⟨Or.inr (Or.inr rfl), hid.symm⟩
  · cases hrole

theorem sample_roles_distinct : DistinctExecutions sample_roles := by
  intro i j executionId hi hj
  obtain ⟨hi, hid⟩ := sample_roles_coordinates hi
  obtain ⟨hj, hid'⟩ := sample_roles_coordinates hj
  have hsame := hid.symm.trans hid'
  rcases hi with rfl | rfl | rfl <;> rcases hj with rfl | rfl | rfl <;>
    first | rfl | exact absurd hsame (by decide +kernel)

/-- The release whose unlink is the next step of a thread. -/
def next_release (pool : Pool ℕ StateRoot Label StoreFailure Unit) (i : ℕ) :
    Option (JsString × JsString) :=
  match pool.threads i with
  | some (.step act _) =>
    match (act pool.shared).1 with
    | .lock_released key executionId => some (key, executionId)
    | _ => none
  | _ => none

theorem next_release_eq_some {pool : Pool ℕ StateRoot Label StoreFailure Unit} {i : ℕ}
    {release : JsString × JsString} (h : next_release pool i = some release) :
    ∃ act next, pool.threads i = some (.step act next) ∧
      (act pool.shared).1 = .lock_released release.1 release.2 := by
  unfold next_release at h
  split at h
  · next act next hthread =>
    split at h
    · next key executionId hlabel =>
      cases h
      exact ⟨act, next, hthread, hlabel⟩
    · cases h
  · cases h

/-- The coordinator stops before its own unlink. One recovery stops before its unlink,
another runs to its end, and the next coordinator takes the lock. -/
def sample_turns : List (System.Turn ℕ ℤ) :=
  [.steps 0 49, .stop 7, .steps 1 13, .steps 2 15, .steps 3 13]

def sample_pool : Pool ℕ StateRoot Label StoreFailure Unit :=
  sample_turns.foldl sample_locks.turn (sample_locks.start fresh_root)

/-- A release is about to unlink a lock that names another execution. -/
def unlinks_other (pool : Pool ℕ StateRoot Label StoreFailure Unit) (i : ℕ) : Bool :=
  (next_release pool i).any fun release =>
    ((pool.shared.build_locks release.1).bind LockFile.document).any fun document =>
      decide (document.executionId ≠ release.2)

/-- The coordinator alone, before its own unlink. -/
def alone_pool : Pool ℕ StateRoot Label StoreFailure Unit :=
  ⟨(sample_locks.program 0).crash 49 fresh_root, Function.update (sample_locks.start fresh_root).threads
    0 (some ((sample_locks.program 0).rest 49 fresh_root))⟩

/-- A thread creates locks only while it has no release of its own pending. -/
def creates_clean (i : ℕ) : ℕ → StoreProg Unit → StateRoot → Bool
  | 0, _, _ => true
  | _ + 1, .done _, _ => true
  | _ + 1, .fail _, _ => true
  | n + 1, .step act next, s =>
    (match (act s).1 with
      | .lock_created _ => (s.releasing i).isNone
      | _ => true) && creates_clean i n (next s) (act s).2

/-- The sample runs. -/
theorem sample_pools : ((next_release alone_pool 0).isSome &&
    creates_clean 0 49 (sample_locks.program 0) fresh_root && unlinks_other sample_pool 1) = true := by
  decide +kernel

/-- **Without the condition.** A release unlinks the lock of another execution. -/
theorem release_unlinks_other : DistinctExecutions sample_roles ∧
    ∃ pool, sample_locks.Run System.AnyStep fresh_root pool ∧
    ∃ act next key executionId file document, pool.threads 1 = some (.step act next) ∧
      (act pool.shared).1 = .lock_released key executionId ∧
      pool.shared.build_locks key = some file ∧ file.document = some document ∧
      document.executionId ≠ executionId := by
  have hunlinks := sample_pools
  rw [Bool.and_eq_true, unlinks_other] at hunlinks
  refine ⟨sample_roles_distinct, sample_pool, System.run_turns sample_turns .refl, ?_⟩
  cases hrelease : next_release sample_pool 1 with
  | none =>
    rw [hrelease] at hunlinks
    exact absurd hunlinks.2 Bool.false_ne_true
  | some release =>
    obtain ⟨act, next, hthread, hlabel⟩ := next_release_eq_some hrelease
    have hother := hunlinks.2
    rw [hrelease, Option.any_some] at hother
    cases hfile : sample_pool.shared.build_locks release.1 with
    | none =>
      rw [hfile] at hother
      exact absurd hother Bool.false_ne_true
    | some file =>
      rw [hfile, Option.bind_some] at hother
      cases hdocument : file.document with
      | none =>
        rw [hdocument] at hother
        exact absurd hother Bool.false_ne_true
      | some document =>
        rw [hdocument, Option.any_some, decide_eq_true_eq] at hother
        exact ⟨act, next, release.1, release.2, file, document, hthread, hlabel, hfile, hdocument,
          hother⟩

/-! ## A run that meets the condition -/

/-- A thread alone, with no release of its own pending where it creates a lock. -/
theorem run_alone {roles : ℕ → Role} {home : ℕ → ℤ} {stateRoot : JsString}
    {envs : ℕ → Environment} (hdistinct : DistinctExecutions roles) {i : ℕ} {n : ℕ}
    {p : StoreProg Unit} {pool : Pool ℕ StateRoot Label StoreFailure Unit}
    (hrun : (lock_system stateRoot roles envs home).Run NoReleasePending fresh_root pool)
    (hthread : pool.threads i = some p) (hothers : ∀ j, j ≠ i → pool.shared.releasing j = none)
    (hclean : creates_clean i n p pool.shared = true) :
    (lock_system stateRoot roles envs home).Run NoReleasePending fresh_root
      ⟨p.crash n pool.shared, Function.update pool.threads i (some (p.rest n pool.shared))⟩ := by
  induction n generalizing p pool with
  | zero =>
    show System.Run _ _ _ ⟨pool.shared, Function.update pool.threads i (some p)⟩
    rw [← hthread, Function.update_eq_self]
    exact hrun
  | succ n ih =>
    cases p with
    | done a =>
      show System.Run _ _ _ ⟨pool.shared, Function.update pool.threads i (some (.done a))⟩
      rw [← hthread, Function.update_eq_self]
      exact hrun
    | fail e =>
      show System.Run _ _ _ ⟨pool.shared, Function.update pool.threads i (some (.fail e))⟩
      rw [← hthread, Function.update_eq_self]
      exact hrun
    | step act next =>
      unfold creates_clean at hclean
      rw [Bool.and_eq_true] at hclean
      have hallowed : NoReleasePending (act pool.shared).1 pool.shared := by
        intro key hkey j hj
        rw [hkey] at hclean
        by_cases hself : j = i
        · rw [← hself, hj] at hclean
          cases hclean.1
        · rw [hothers j hself] at hj
          cases hj
      obtain ⟨howned, hguarded⟩ := run_owned hdistinct hrun
      have hstep := ((hguarded i _ hthread).step ⟨hallowed, howned⟩).1
      have hmove := ih (hrun.tail (.step i hthread hallowed)) (Function.update_self _ _ _)
        (fun j hj => (hstep.releasing j hj).trans (hothers j hj)) hclean.2
      rw [Function.update_idem] at hmove
      exact hmove

theorem run_alone_start {roles : ℕ → Role} {home : ℕ → ℤ} {stateRoot : JsString}
    {envs : ℕ → Environment} (hdistinct : DistinctExecutions roles) {i : ℕ} {n : ℕ}
    (hclean : creates_clean i n ((lock_system stateRoot roles envs home).program i) fresh_root =
      true) :
    (lock_system stateRoot roles envs home).Run NoReleasePending fresh_root
      ⟨((lock_system stateRoot roles envs home).program i).crash n fresh_root,
        Function.update ((lock_system stateRoot roles envs home).start fresh_root).threads i
          (some (((lock_system stateRoot roles envs home).program i).rest n fresh_root))⟩ :=
  run_alone hdistinct .refl rfl (fun _ _ => rfl) hclean

theorem lock_ownership_sample : ∃ pool act next key executionId,
    sample_locks.Run NoReleasePending fresh_root pool ∧ pool.threads 0 = some (.step act next) ∧
    (act pool.shared).1 = .lock_released key executionId ∧
    ∃ file, pool.shared.build_locks key = some file ∧
      ∃ document ∈ file.document, document.executionId = executionId := by
  have hpools := sample_pools
  simp only [Bool.and_eq_true] at hpools
  obtain ⟨⟨hrelease, hclean⟩, -⟩ := hpools
  obtain ⟨release, hrelease⟩ := Option.isSome_iff_exists.mp hrelease
  obtain ⟨act, next, hthread, hlabel⟩ := next_release_eq_some hrelease
  have hrun : sample_locks.Run NoReleasePending fresh_root alone_pool :=
    run_alone_start sample_roles_distinct hclean
  exact ⟨alone_pool, act, next, _, _, hrun, hthread, hlabel,
    (lock_ownership [] sample_roles (fun _ => quiet_environment) sample_home sample_roles_distinct
      alone_pool hrun).1 0 act next _ _ hthread hlabel⟩

end LeanBun.Execution
