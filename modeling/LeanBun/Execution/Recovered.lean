/-
What a recovery makes of a crash.

A recovery is decided by the files that it finds. It settles an execution whose record and
lock can be loaded and belong together, where a running record is not being finalized
under a lock file of its own. It leaves every other state as it is: a lock whose record
was never published, a lock that is not complete, a record with its lock file beside it.
So what the first recovery does not settle no later one does.
-/
import LeanBun.Execution.Undisturbed

set_option autoImplicit false

namespace LeanBun.Execution

open LeanBun.Lib LeanBun.Core

/-- What a record of a coordinator names. -/
structure NamesInput (input : CoordinatorInput) (d : ControlledBuildExecutionRecordV1) : Prop where
  executionId : d.executionId = input.lock.executionId
  projectId : d.projectId = input.lock.projectId
  imageId : d.imageId = input.lock.imageId
  buildLockKey : d.buildLockKey = some (lock_document input.lock).key
  coordinatorPid : d.coordinatorPid = some input.lock.coordinatorPid

/-- One call of `recoverStaleExecution`. -/
structure RecoveryAttempt where
  env : Environment
  audit : RecoveryAudit

/-- The state after a recovery. -/
def recovered (stateRoot id : JsString) (attempt : RecoveryAttempt) (s : StateRoot) : StateRoot :=
  ((recoverStaleExecution attempt.env stateRoot id attempt.audit).run s).2

/-- The state after some of the recoveries. -/
def after_recoveries (stateRoot id : JsString) (attempts : ℕ → RecoveryAttempt) (s : StateRoot) :
    ℕ → StateRoot
  | 0 => s
  | k + 1 => recovered stateRoot id (attempts k) (after_recoveries stateRoot id attempts s k)

/-- A recovery that nothing outside of the state root keeps from its work: no operation
fails, the process can be told, the project is in place and idle, and the evidence is
readable. -/
structure RecoveryAttempt.Fine (date_parse : JsString → Option ℤ) (attempt : RecoveryAttempt)
    (facts : RecoveryFacts) : Prop where
  quiet : attempt.env.Quiet
  date_parse : attempt.env.date_parse = date_parse
  known : attempt.audit.process_state_known = true
  canonical : attempt.audit.project_canonical = true
  clear : attempt.audit.project_clear = true
  provider : attempt.audit.provider = true
  evidence : attempt.audit.evidence = some facts

/-- The execution is terminal or was never recorded, and its lock is free. -/
def Settled (input : CoordinatorInput) (s : StateRoot) : Prop :=
  s.build_locks (lock_document input.lock).key = none ∧
    ∀ file, (s.executions input.lock.executionId).record = some file →
      ∃ d, file.document = some d ∧ d.status ≠ .running

/-- The record and the lock can be loaded and belong together, and a running record is not
being finalized. -/
structure Recovers (date_parse : JsString → Option ℤ) (input : CoordinatorInput) (s : StateRoot)
    (d : ControlledBuildExecutionRecordV1) (lock : BuildExecutionLockV1) : Prop where
  loads : RecordLoads date_parse s input.lock.executionId d
  lock_loads : LockLoads date_parse s (lock_document input.lock).key lock
  together : lock_matches d lock = true
  running : d.status = .running → (s.executions input.lock.executionId).lock = none ∧
    d.projectProtectedBefore ≠ none ∧ d.projectProtectedRecordCount ≠ none

/-- The terminal record that a recovery writes. -/
def recovered_record (input : CoordinatorInput) (finishedAt : JsString) (facts : RecoveryFacts)
    (d : ControlledBuildExecutionRecordV1) : ControlledBuildExecutionRecordV1 :=
  d.finished .failed finishedAt (recovery_outcome input.lock.coordinatorPid facts)

/-- **The condition.** Nothing is left to do, or the record and the lock can be recovered
and the terminal record, where one has to be written, can be read. -/
def Recoverable (date_parse : JsString → Option ℤ) (input : CoordinatorInput)
    (finishedAt : JsString) (facts : RecoveryFacts) (s : StateRoot) : Prop :=
  Settled input s ∨ ∃ d lock, Recovers date_parse input s d lock ∧
    (d.status = .running → ReadableRecord date_parse
      ⟨some (recovered_record input finishedAt facts d), true⟩
      (recovered_record input finishedAt facts d))

section Recovered

variable {date_parse : JsString → Option ℤ} {stateRoot : JsString} {input : CoordinatorInput}
  {attempt : RecoveryAttempt} {facts : RecoveryFacts} {s : StateRoot}
  {d : ControlledBuildExecutionRecordV1} {lock : BuildExecutionLockV1}

/-- What is known of a crash: its records name their coordinator, whose process is gone. -/
structure Crashed (input : CoordinatorInput) (s : StateRoot) : Prop where
  named : ∀ file, (s.executions input.lock.executionId).record = some file →
    ∀ d ∈ file.document, NamesInput input d
  gone : s.gone input.lock.coordinatorPid = true

theorem Crashed.names (h : Crashed input s)
    (hloads : RecordLoads date_parse s input.lock.executionId d) : NamesInput input d := by
  obtain ⟨-, -, file, hfile, hreadable, -⟩ := hloads
  refine h.named file hfile d ?_
  rw [hreadable.document]
  rfl

/-! ## The way to a record and its lock -/

/-- Without a record that can be loaded there is nothing to recover. -/
theorem recovered_unloaded (hfine : attempt.Fine date_parse facts)
    (hnot : ∀ d, ¬RecordLoads date_parse s input.lock.executionId d) :
    recovered stateRoot input.lock.executionId attempt s = s := by
  unfold recovered recoverStaleExecution
  rcases run_load_record (s := s) (hfine.quiet.part 0) stateRoot input.lock.executionId with
    ⟨d, hloads, -⟩ | ⟨-, e, hrun⟩
  · rw [← hfine.date_parse] at hnot
    exact absurd hloads (hnot d)
  · rw [Prog.run_bind_error hrun]

/-- What a recovery does with a record that it has loaded. -/
theorem run_recover (hfine : attempt.Fine date_parse facts)
    (hloads : RecordLoads date_parse s input.lock.executionId d) (hnames : NamesInput input d) :
    (recoverStaleExecution attempt.env stateRoot input.lock.executionId attempt.audit).run s =
      (recover_record (attempt.env.part 1) stateRoot input.lock.executionId attempt.audit d
        (lock_document input.lock).key input.lock.coordinatorPid).run s := by
  unfold recoverStaleExecution
  rcases run_load_record (s := s) (hfine.quiet.part 0) stateRoot input.lock.executionId with
    ⟨d', hloads', hrun⟩ | ⟨hnot, -⟩
  · rw [← hfine.date_parse] at hloads
    have hd := hloads.unique hloads'
    subst hd
    rw [Prog.run_bind_ok hrun]
    unfold stored_record
    dsimp only
    rw [hnames.buildLockKey, hnames.coordinatorPid]
  · rw [← hfine.date_parse] at hloads
    exact absurd hloads (hnot d)

/-- The process is gone. -/
theorem run_process_state (hfine : attempt.Fine date_parse facts)
    (hgone : s.gone input.lock.coordinatorPid = true) :
    (coordinatorProcessState attempt.audit input.lock.coordinatorPid).run s = (.ok .absent, s) := by
  unfold coordinatorProcessState Prog.read
  rw [Prog.run_atomic, hfine.known]
  dsimp only
  rw [hgone]
  rfl

/-- A recovery that is not refused comes to the files. -/
theorem run_recover_audited (hfine : attempt.Fine date_parse facts) {env : Environment}
    (hgone : s.gone input.lock.coordinatorPid = true) {found : Option StoredBuildLock}
    (hload : (loadBuildLock (env.part 0) stateRoot (lock_document input.lock).key no_note).run s =
      (.ok found, s))
    (htogether : ∀ stored, found = some stored → lock_matches d stored.document = true)
    (hevidence : d.status = .running →
      d.projectProtectedBefore ≠ none ∧ d.projectProtectedRecordCount ≠ none) :
    (recover_record env stateRoot input.lock.executionId attempt.audit d
        (lock_document input.lock).key input.lock.coordinatorPid).run s =
      (recover_idle (env.part 1) stateRoot input.lock.executionId attempt.audit d
        (lock_document input.lock).key input.lock.coordinatorPid found).run s := by
  unfold recover_record
  rw [Prog.run_bind_ok hload, if_neg, if_neg, Prog.run_bind_ok (run_process_state hfine hgone),
    if_neg (by decide), if_neg (by decide), if_neg (by rw [hfine.canonical]; decide),
    if_neg (by rw [hfine.clear]; decide)]
  · rintro ⟨hrunning, hmissing⟩
    obtain ⟨hbefore, hcount⟩ := hevidence hrunning
    exact hmissing.elim hbefore hcount
  · cases found with
    | none => exact Bool.false_ne_true
    | some stored =>
      rw [Option.any_some, htogether stored rfl]
      exact Bool.false_ne_true

/-- A recovery that is refused changes nothing. -/
theorem run_recover_refused {env : Environment} {found : Option StoredBuildLock}
    (hload : (loadBuildLock (env.part 0) stateRoot (lock_document input.lock).key no_note).run s =
      (.ok found, s))
    (hrefused : (∃ stored, found = some stored ∧ lock_matches d stored.document = false) ∨
      d.status = .running ∧
        (d.projectProtectedBefore = none ∨ d.projectProtectedRecordCount = none)) :
    ((recover_record env stateRoot input.lock.executionId attempt.audit d
      (lock_document input.lock).key input.lock.coordinatorPid).run s).2 = s := by
  unfold recover_record
  rw [Prog.run_bind_ok hload]
  by_cases hconflict : (found.any fun lock => !lock_matches d lock.document) = true
  · rw [if_pos hconflict]
    rfl
  · rw [if_neg hconflict, if_pos]
    · rfl
    · rcases hrefused with ⟨stored, hfound, hmismatch⟩ | hrefused
      · rw [hfound, Option.any_some, hmismatch] at hconflict
        exact absurd rfl hconflict
      · exact hrefused

/-- The recovery of a running record. -/
theorem run_recover_running (hfine : attempt.Fine date_parse facts) {env : Environment}
    {id key : JsString} {pid : ℤ} {stored : StoredBuildLock} (hrunning : d.status = .running) :
    (recover_idle env stateRoot id attempt.audit d key pid (some stored)).run s = (do
      let _ ← finalizeExecutionRecord ((env.part 1).part 0) stateRoot id .failed
        attempt.audit.finishedAt (recovery_outcome pid facts)
      let _ ← releaseBuildLock ((env.part 1).part 1) stateRoot stored.document.expected
      return (⟨.recovered, .BUILD_LOCK_RELEASED⟩ : ExecutionRecoveryReport)).run s := by
  unfold recover_idle
  rw [if_neg (not_not.mpr hrunning)]
  dsimp only
  unfold recover_running
  rw [if_neg (by rw [hfine.provider]; decide), hfine.evidence]

/-- The recovery of a terminal record. -/
theorem run_recover_terminal {env : Environment} {id key : JsString} {pid : ℤ}
    {found : Option StoredBuildLock} (hterminal : d.status ≠ .running) :
    (recover_idle env stateRoot id attempt.audit d key pid found).run s = (do
      let _ ← releaseBuildLock (env.part 0) stateRoot
        ⟨key, d.executionId, d.projectId, d.imageId⟩
      return (⟨.lock_released, .BUILD_LOCK_RELEASED⟩ : ExecutionRecoveryReport)).run s := by
  unfold recover_idle
  rw [if_pos hterminal]

/-- The state after a program whose result is not used. -/
theorem run_then_return {α β : Type} (p : StoreProg α) (b : β) (s : StateRoot) :
    ((do
      let _ ← p
      return b).run s).2 = (p.run s).2 := by
  rcases hrun : p.run s with ⟨result, t⟩
  cases result with
  | ok a =>
    rw [Prog.run_bind_ok hrun]
    rfl
  | error e => rw [Prog.run_bind_error hrun]

/-! ## What a recovery leaves -/

/-- Recovery comes to nothing, whatever its evidence. -/
def Stuck (date_parse : JsString → Option ℤ) (input : CoordinatorInput) (s : StateRoot) : Prop :=
  ¬Settled input s ∧ ∀ d lock, ¬Recovers date_parse input s d lock

/-- **A stuck execution stays as it is.** -/
theorem recovered_stuck (hfine : attempt.Fine date_parse facts) (hcrashed : Crashed input s)
    (htemporary : (s.executions input.lock.executionId).temporaries attempt.env.call = none)
    (hstuck : Stuck date_parse input s) :
    recovered stateRoot input.lock.executionId attempt s = s := by
  obtain ⟨hunsettled, hnot⟩ := hstuck
  by_cases hloaded : ∃ d, RecordLoads date_parse s input.lock.executionId d
  · obtain ⟨d, hloads⟩ := hloaded
    have hnames := hcrashed.names hloads
    unfold recovered
    rw [run_recover hfine hloads hnames]
    have hquiet := hfine.quiet.part 1
    rcases run_load_lock (s := s) (hquiet.part 0) stateRoot (lock_document input.lock).key no_note
      with ⟨lock, hlock, hload⟩ | ⟨hnone, ⟨habsent, hload⟩ | ⟨e, hload⟩⟩
    · -- a lock is found
      have hlock' : LockLoads date_parse s (lock_document input.lock).key lock := by
        rw [← hfine.date_parse]
        exact hlock
      by_cases htogether : lock_matches d lock = true
      · by_cases hevidence : d.status = .running →
            d.projectProtectedBefore ≠ none ∧ d.projectProtectedRecordCount ≠ none
        · rw [run_recover_audited hfine hcrashed.gone hload (fun stored hstored => by
            rw [← Option.some.inj hstored]; exact htogether) hevidence]
          -- the record is running, with its own lock file beside it
          have hrunning : d.status = .running := by
            by_contra hterminal
            exact hnot d lock ⟨hloads, hlock', htogether, fun h => absurd h hterminal⟩
          cases howner : (s.executions input.lock.executionId).lock with
          | none => exact absurd ⟨hloads, hlock', htogether, fun h => ⟨howner, hevidence h⟩⟩ (hnot d lock)
          | some owner =>
            obtain ⟨e, hfinalize⟩ := @run_finalize_busy
              ((((attempt.env.part 1).part 1).part 1).part 0) s ((hquiet.part 1).part 1 |>.part 0)
              stateRoot input.lock.executionId attempt.audit.finishedAt .failed
              (recovery_outcome input.lock.coordinatorPid facts) owner hloads.2.1 howner htemporary
            rw [run_recover_running hfine hrunning, Prog.run_bind_error hfinalize]
        · refine run_recover_refused hload (Or.inr ?_)
          by_contra hneither
          refine hevidence fun hrunning => ⟨fun h => ?_, fun h => ?_⟩
          · exact hneither ⟨hrunning, Or.inl h⟩
          · exact hneither ⟨hrunning, Or.inr h⟩
      · refine run_recover_refused hload (Or.inl ⟨_, rfl, ?_⟩)
        rw [← Bool.not_eq_true]
        exact htogether
    · -- no lock is found
      by_cases hrunning : d.status = .running
      · by_cases hevidence : d.projectProtectedBefore = none ∨ d.projectProtectedRecordCount = none
        · exact run_recover_refused hload (Or.inr ⟨hrunning, hevidence⟩)
        · rw [not_or] at hevidence
          rw [run_recover_audited hfine hcrashed.gone hload (fun stored hstored =>
            absurd hstored (Option.some_ne_none stored).symm) fun _ => hevidence]
          unfold recover_idle
          rw [if_neg (not_not.mpr hrunning)]
          rfl
      · rw [run_recover_audited hfine hcrashed.gone hload (fun stored hstored =>
          absurd hstored (Option.some_ne_none stored).symm) fun h => absurd h hrunning,
          run_recover_terminal hrunning, run_then_return]
        exact run_release_none (((hquiet.part 1).part 0)) hnone
    · -- what is there cannot be loaded
      unfold recover_record
      rw [Prog.run_bind_error hload]
  · exact recovered_unloaded hfine fun d hd => hloaded ⟨d, hd⟩

/-- What is released for a record or a lock of the coordinator is its lock. -/
theorem Recovers.expected (h : Recovers date_parse input s d lock) (hnames : NamesInput input d) :
    lock.key = (lock_document input.lock).key ∧ lock.executionId = d.executionId ∧
      lock.projectId = d.projectId ∧ lock.imageId = d.imageId := by
  have htogether := h.together
  unfold lock_matches at htogether
  simp only [Bool.and_eq_true, decide_eq_true_eq] at htogether
  obtain ⟨⟨⟨⟨⟨⟨hkey, hid⟩, hproject⟩, -⟩, himage⟩, -⟩, -⟩ := htogether
  rw [hnames.buildLockKey, Option.some.injEq] at hkey
  exact ⟨hkey, hid, hproject, himage⟩

/-- **A terminal record.** Its lock is released. -/
theorem recovered_terminal (hfine : attempt.Fine date_parse facts) (hcrashed : Crashed input s)
    (h : Recovers date_parse input s d lock) (hterminal : d.status ≠ .running) :
    Settled input (recovered stateRoot input.lock.executionId attempt s) := by
  have hnames := hcrashed.names h.loads
  obtain ⟨-, hid, hproject, himage⟩ := h.expected hnames
  have hquiet := hfine.quiet.part 1
  have hdate := hfine.date_parse
  subst hdate
  unfold recovered
  rw [run_recover hfine h.loads hnames]
  rcases run_load_lock (s := s) (hquiet.part 0) stateRoot (lock_document input.lock).key no_note
    with ⟨found, hfound, hload⟩ | ⟨hnone, -⟩
  · have hsame := h.lock_loads.unique hfound
    subst hsame
    have hrelease := @run_release (((attempt.env.part 1).part 1).part 0) s ((hquiet.part 1).part 0)
      stateRoot ⟨(lock_document input.lock).key, d.executionId, d.projectId, d.imageId⟩ lock
      (by rw [hnames.projectId, hnames.imageId]; rfl) h.lock_loads
      (by unfold ExpectedLock.matches_lock; rw [hid, hproject, himage]; simp)
    rw [run_recover_audited hfine hcrashed.gone hload (fun stored hstored => by
      rw [← Option.some.inj hstored]; exact h.together) fun hrunning => absurd hrunning hterminal,
      run_recover_terminal hterminal, run_then_return, hrelease]
    refine ⟨StateRoot.at_lock_self _ _ _, fun file hfile => ⟨d, ?_, hterminal⟩⟩
    obtain ⟨-, -, file', hfile', hreadable, -⟩ := h.loads
    have hat : (s.executions input.lock.executionId).record = some file := hfile
    rw [hat, Option.some.injEq] at hfile'
    rw [hfile']
    exact hreadable.document
  · exact absurd h.lock_loads (hnone lock)

/-- The state after the finalization of a recovery. -/
def finalized (input : CoordinatorInput) (attempt : RecoveryAttempt) (facts : RecoveryFacts)
    (d : ControlledBuildExecutionRecordV1) (s : StateRoot) : StateRoot :=
  s.at_execution input.lock.executionId (published_files attempt.env.call
    (recovered_record input attempt.audit.finishedAt facts d))

theorem finalized_record : ((finalized input attempt facts d s).executions
    input.lock.executionId).record =
      some ⟨some (recovered_record input attempt.audit.finishedAt facts d), true⟩ := by
  unfold finalized
  rw [StateRoot.at_execution_self]
  rfl

/-- **A running record.** It is finalized, and if that can be read its lock is released. -/
theorem recovered_running (hfine : attempt.Fine date_parse facts) (hcrashed : Crashed input s)
    (htemporary : (s.executions input.lock.executionId).temporaries attempt.env.call = none)
    (h : Recovers date_parse input s d lock) (hrunning : d.status = .running) :
    (ReadableRecord date_parse ⟨some (recovered_record input attempt.audit.finishedAt facts d), true⟩
        (recovered_record input attempt.audit.finishedAt facts d) ∧
      Settled input (recovered stateRoot input.lock.executionId attempt s)) ∨
    (¬ReadableRecord date_parse ⟨some (recovered_record input attempt.audit.finishedAt facts d), true⟩
        (recovered_record input attempt.audit.finishedAt facts d) ∧
      recovered stateRoot input.lock.executionId attempt s = finalized input attempt facts d s) := by
  have hnames := hcrashed.names h.loads
  have hexpected := h.expected hnames
  obtain ⟨howner, hevidence⟩ := h.running hrunning
  have hquiet := hfine.quiet.part 1
  have hdate := hfine.date_parse
  subst hdate
  unfold recovered
  rw [run_recover hfine h.loads hnames]
  rcases run_load_lock (s := s) (hquiet.part 0) stateRoot (lock_document input.lock).key no_note
    with ⟨found, hfound, hload⟩ | ⟨hnone, -⟩
  · have hsame := h.lock_loads.unique hfound
    subst hsame
    obtain ⟨result, hfinalize, hreadable, hunreadable⟩ := @run_finalize
      ((((attempt.env.part 1).part 1).part 1).part 0) s ((hquiet.part 1).part 1 |>.part 0)
      stateRoot input.lock.executionId attempt.audit.finishedAt .failed
      (recovery_outcome input.lock.coordinatorPid facts) d rfl h.loads hnames.executionId hrunning
      howner htemporary
    rw [run_recover_audited hfine hcrashed.gone hload (fun stored hstored => by
      rw [← Option.some.inj hstored]; exact h.together) fun _ => hevidence,
      run_recover_running hfine hrunning]
    by_cases hread : ReadableRecord attempt.env.date_parse
        ⟨some (recovered_record input attempt.audit.finishedAt facts d), true⟩
        (recovered_record input attempt.audit.finishedAt facts d)
    · rw [hreadable hread] at hfinalize
      refine Or.inl ⟨hread, ?_⟩
      -- the lock is as it was before the finalization
      have hkey : lock.expected.key = (lock_document input.lock).key := hexpected.1
      have hloads : LockLoads attempt.env.date_parse (finalized input attempt facts d s)
          lock.expected.key lock := by
        rw [hkey]
        exact ⟨h.lock_loads.pattern, h.lock_loads.directory, h.lock_loads.file⟩
      have hconsistent : lock.expected.key =
          build_lock_key lock.expected.projectId lock.expected.imageId := by
        obtain ⟨file, -, -, -, hvalid, -⟩ := h.lock_loads.file
        unfold valid_lock at hvalid
        simp only [Bool.and_eq_true, decide_eq_true_eq] at hvalid
        exact hvalid.1.2
      have hrelease := @run_release ((((attempt.env.part 1).part 1).part 1).part 1)
        (finalized input attempt facts d s) ((hquiet.part 1).part 1 |>.part 1) stateRoot
        lock.expected lock hconsistent hloads
        (by unfold ExpectedLock.matches_lock BuildExecutionLockV1.expected; simp)
      rw [Prog.run_bind_ok hfinalize, run_then_return]
      show Settled input ((releaseBuildLock _ stateRoot lock.expected).run
        (finalized input attempt facts d s)).2
      rw [hrelease]
      refine ⟨?_, fun file hfile => ⟨recovered_record input attempt.audit.finishedAt facts d, ?_,
        fun hstatus => ?_⟩⟩
      · rw [← hkey]
        exact StateRoot.at_lock_self _ _ _
      · have hat : ((finalized input attempt facts d s).executions
            input.lock.executionId).record = some file := hfile
        rw [finalized_record, Option.some.injEq] at hat
        rw [← hat]
      · unfold recovered_record ControlledBuildExecutionRecordV1.finished at hstatus
        cases hstatus
    · obtain ⟨e, he⟩ := hunreadable hread
      rw [he] at hfinalize
      rw [Prog.run_bind_error hfinalize]
      exact Or.inr ⟨hread, rfl⟩
  · exact absurd h.lock_loads (hnone lock)

/-- A finalization that cannot be read leaves the execution stuck. -/
theorem finalized_stuck (h : Recovers date_parse input s d lock)
    (hunreadable : ¬ReadableRecord date_parse
      ⟨some (recovered_record input attempt.audit.finishedAt facts d), true⟩
      (recovered_record input attempt.audit.finishedAt facts d)) :
    Stuck date_parse input (finalized input attempt facts d s) := by
  refine ⟨fun hsettled => ?_, fun d' lock' h' => ?_⟩
  · obtain ⟨file, hfile, -⟩ := h.lock_loads.file
    have hnone : s.build_locks (lock_document input.lock).key = none := hsettled.1
    rw [hfile] at hnone
    cases hnone
  · obtain ⟨-, -, file, hfile, hreadable, -⟩ := h'.loads
    rw [finalized_record, Option.some.injEq] at hfile
    subst hfile
    have hd := hreadable.document
    rw [Option.some.injEq] at hd
    subst hd
    exact hunreadable hreadable

/-! ## Repeated recoveries -/

/-- A stuck execution stays so, however often it is recovered. -/
theorem after_recoveries_stuck {attempts : ℕ → RecoveryAttempt} {evidence : ℕ → RecoveryFacts}
    (hfine : ∀ k, (attempts k).Fine date_parse (evidence k)) (hcrashed : Crashed input s)
    (htemporary : ∀ k, (s.executions input.lock.executionId).temporaries (attempts k).env.call = none)
    (hstuck : Stuck date_parse input s) (k : ℕ) :
    after_recoveries stateRoot input.lock.executionId attempts s k = s := by
  induction k with
  | zero => rfl
  | succ k ih =>
    unfold after_recoveries
    rw [ih]
    exact recovered_stuck (hfine k) hcrashed (htemporary k) hstuck

theorem finalized_crashed (hcrashed : Crashed input s) (hnames : NamesInput input d) :
    Crashed input (finalized input attempt facts d s) where
  named := by
    intro file hfile d' hd'
    rw [finalized_record, Option.some.injEq] at hfile
    subst hfile
    cases hd'
    exact ⟨hnames.executionId, hnames.projectId, hnames.imageId, hnames.buildLockKey,
      hnames.coordinatorPid⟩
  gone := hcrashed.gone

theorem after_recoveries_succ (attempts : ℕ → RecoveryAttempt) (id : JsString) (s : StateRoot)
    (k : ℕ) : after_recoveries stateRoot id attempts s (k + 1) =
      after_recoveries stateRoot id (fun j => attempts (j + 1))
        (recovered stateRoot id (attempts 0) s) k := by
  induction k with
  | zero => rfl
  | succ k ih => exact congrArg (recovered stateRoot id (attempts (k + 1))) ih

/-- **What recoveries come to.** They settle a crash, sooner or later, exactly where it is
recoverable. -/
theorem recoveries_settle {attempts : ℕ → RecoveryAttempt} {evidence : ℕ → RecoveryFacts}
    (hfine : ∀ k, (attempts k).Fine date_parse (evidence k)) (hcrashed : Crashed input s)
    (htemporary : ∀ k, (s.executions input.lock.executionId).temporaries (attempts k).env.call = none) :
    (∃ k, Settled input (after_recoveries stateRoot input.lock.executionId attempts s k)) ↔
      Recoverable date_parse input (attempts 0).audit.finishedAt (evidence 0) s := by
  constructor
  · rintro ⟨k, hsettled⟩
    by_contra hnot
    unfold Recoverable at hnot
    rw [not_or] at hnot
    obtain ⟨hunsettled, hnot⟩ := hnot
    by_cases hstuck : Stuck date_parse input s
    · rw [after_recoveries_stuck hfine hcrashed htemporary hstuck] at hsettled
      exact hunsettled hsettled
    · -- the first recovery writes a record that cannot be read
      unfold Stuck at hstuck
      push Not at hstuck hnot
      obtain ⟨d, lock, h⟩ := hstuck hunsettled
      obtain ⟨hrunning, hunreadable⟩ := hnot d lock h
      have hfirst := (@recovered_running date_parse stateRoot input _ _ s d lock (hfine 0) hcrashed
        (htemporary 0) h hrunning).resolve_left fun hread => hunreadable hread.1
      cases k with
      | zero => exact hunsettled hsettled
      | succ k =>
        rw [after_recoveries_succ, hfirst.2, after_recoveries_stuck (fun j => hfine (j + 1))
          (finalized_crashed hcrashed (hcrashed.names h.loads)) ?_
          (finalized_stuck h hunreadable)] at hsettled
        · have hstill : Stuck date_parse input (finalized input (attempts 0) (evidence 0) d s) :=
            finalized_stuck h hunreadable
          exact hstill.1 hsettled
        · intro j
          unfold finalized published_files
          rw [StateRoot.at_execution_self]
          dsimp only
          by_cases hcall : (attempts (j + 1)).env.call = (attempts 0).env.call
          · rw [hcall, Function.update_self]
          · rw [Function.update_of_ne hcall]
            exact htemporary (j + 1)
  · rintro (hsettled | ⟨d, lock, h, hreadable⟩)
    · exact ⟨0, hsettled⟩
    · refine ⟨1, ?_⟩
      by_cases hrunning : d.status = .running
      · exact ((recovered_running (hfine 0) hcrashed (htemporary 0) h hrunning).resolve_right
          fun hread => hread.1 (hreadable hrunning)).2
      · exact recovered_terminal (hfine 0) hcrashed h hrunning

end Recovered

end LeanBun.Execution
