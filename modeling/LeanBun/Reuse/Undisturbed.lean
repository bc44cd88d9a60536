/-
A reuse transaction that nothing disturbs.

Where no operation fails, the lock is free, the id is fresh and the records of the store can
be loaded, a transaction comes to its end: what it finds decides whether it reuses a build,
its record is terminal, the lock is free again and the other executions are as they were.
-/
import LeanBun.Documents.Agreement
import LeanBun.Execution.Bounded
import LeanBun.Reuse.History

set_option autoImplicit false

namespace LeanBun.Reuse

open LeanBun.Lib LeanBun.Core LeanBun.Execution

/-! ## Operations -/

section Operations

variable {env : Environment} {s : StateRoot} {stateRoot : JsString}

/-- **The creation of a record** that is not there. -/
theorem run_begin (henv : env.Quiet) {input : ExecutionIdentity}
    (hinput : valid_begin_input input = true)
    (hrecord : (s.executions input.executionId).record = none)
    (hlock : (s.executions input.executionId).lock = none)
    (htemporary : (s.executions input.executionId).temporaries env.call = none)
    (hreadable : ReadableRecord env.date_parse ⟨some input.started, true⟩ input.started) :
    (beginExecutionRecord env stateRoot input).run s =
      (.ok (stored_record stateRoot input.executionId input.started),
        ({ s with executions_directory := true } : StateRoot).at_execution input.executionId
          (published_files env.call input.started)) := by
  have hprepare : (prepare_begin ((env.part 1).part 0) stateRoot input).run
      (({ s with executions_directory := true } : StateRoot).at_execution input.executionId
        fun files => { files with lock := some env.call }) =
      (.ok input.started, ({ s with executions_directory := true } : StateRoot).at_execution
        input.executionId fun files => { files with lock := some env.call }) := by
    unfold prepare_begin
    rw [run_inspect ((henv.part 1).part 0), StateRoot.at_execution_self]
    dsimp only
    rw [hrecord]
  -- the directory is made before the lock of the record is taken
  obtain ⟨result, hrun, hok, -⟩ := @run_transition (env.part 1) { s with executions_directory := true }
    (henv.part 1) stateRoot input.executionId (js "execution record creation is already locked: " ++
      record_lock_path stateRoot input.executionId) .CONFLICT
    (prepare_begin ((env.part 1).part 0) stateRoot input) input.started hlock htemporary hprepare
  unfold beginExecutionRecord
  rw [if_neg (by rw [hinput]; decide),
    Prog.run_bind_ok (run_prepare_executions (henv.part 0) stateRoot), hrun, hok hreadable]
  rfl

theorem run_load_ok (henv : env.Quiet) {id : JsString} {d : ControlledBuildExecutionRecordV1}
    (h : RecordLoads env.date_parse s id d) :
    (loadExecutionRecord env stateRoot id).run s = (.ok (stored_record stateRoot id d), s) := by
  rcases run_load_record (s := s) henv stateRoot id with ⟨d', hloads, hrun⟩ | ⟨hnot, -⟩
  · rw [hrun, h.unique hloads]
  · exact absurd h (hnot d)

theorem run_load_records (henv : env.Quiet) {date_parse : JsString → Option ℤ}
    (hdates : env.date_parse = date_parse) {ids : List JsString}
    {documents : List ControlledBuildExecutionRecordV1}
    (h : List.Forall₂ (RecordLoads date_parse s) ids documents) :
    (load_records env stateRoot ids).run s =
      (.ok (List.zipWith (stored_record stateRoot) ids documents), s) := by
  induction h generalizing env with
  | nil => rfl
  | cons hfirst _ ih =>
    subst hdates
    unfold load_records
    rw [Prog.run_bind_ok (run_load_ok (henv.part 0) hfirst),
      Prog.run_bind_ok (ih (henv.part 1) rfl)]
    rfl

/-- **A list of the records** where all of them can be loaded. -/
theorem run_list (stateRoot : JsString) (henv : env.Quiet) {readdir : StateRoot → List JsString}
    (hdirectory : s.executions_directory = true) (hfew : (record_ids (readdir s)).length ≤ 10000)
    {documents : List ControlledBuildExecutionRecordV1}
    (h : List.Forall₂ (RecordLoads env.date_parse s) (record_ids (readdir s)) documents) :
    (listExecutionRecords env readdir stateRoot).run s =
      (.ok (List.zipWith (stored_record stateRoot) (record_ids (readdir s)) documents), s) := by
  have hpatterns : (record_ids (readdir s)).any (fun id => !execution_id_pattern id) = false := by
    rw [List.any_eq_false]
    intro id hid
    obtain ⟨d, -, hpattern, -⟩ := forall₂_partner h hid
    simp [hpattern]
  have hfind := run_find_executions (s := s) (henv.part 0) stateRoot
  rw [if_pos hdirectory] at hfind
  unfold listExecutionRecords
  rw [run_inspect_bind henv]
  dsimp only
  rw [hdirectory, if_neg (by decide), Prog.run_bind_ok hfind, run_inspect_bind (henv.part 1)]
  dsimp only
  rw [if_neg (by omega), hpatterns, if_neg Bool.false_ne_true]
  exact run_load_records (henv.part 2) rfl h

theorem run_lift {α : Type} (x : Except StoreFailure α) :
    (Prog.lift x : StoreProg α).run s = (x, s) := by
  cases x <;> rfl

theorem run_lift_bind {α β : Type} (x : Except StoreFailure α) (f : α → StoreProg β) :
    (Prog.lift x >>= f).run s = match x with
      | .ok a => (f a).run s
      | .error e => (.error e, s) := by
  cases x with
  | ok a => exact Prog.run_bind_ok (run_lift _)
  | error e => exact Prog.run_bind_error (run_lift _)

/-- **The release of a lock** that is still the one that was acquired. -/
theorem release_own (henv : env.Quiet) (stateRoot : JsString) {input : LockIdentity} {owner : ℕ}
    (hvalid : valid_lock env.date_parse (lock_document input) = true)
    (hbounded : byte_len (lock_document input).canonical_text ≤ 32 * 1024)
    (hdirectory : s.build_locks_directory = true)
    (hlock : s.build_locks (lock_document input).key =
      some ⟨owner, some (lock_document input), true⟩) :
    (releaseBuildLock env stateRoot (lock_document input).expected).run s = (.ok .released,
      { s.at_lock (lock_document input).key none with
        releasing := Function.update s.releasing env.call none }) := by
  have hpattern : sha_pattern (lock_document input).key = true := by
    unfold valid_lock at hvalid
    simp only [Bool.and_eq_true] at hvalid
    exact hvalid.1.1.1.1.1.1.1.1.1.1
  have hloads : LockLoads env.date_parse s (lock_document input).key (lock_document input) :=
    ⟨hpattern, hdirectory, _, hlock, rfl, hbounded, hvalid, rfl⟩
  have hmatches : (lock_document input).expected.matches_lock (lock_document input) = true := by
    unfold ExpectedLock.matches_lock BuildExecutionLockV1.expected
    simp
  have hrun := @run_release env s henv stateRoot (lock_document input).expected _ rfl hloads hmatches
  exact hrun

/-- **The finalization of a record** that the same call has begun. -/
theorem finalize_own (henv : env.Quiet) (stateRoot : JsString) {id finishedAt : JsString}
    {status : TerminalStatus} {outcome : ControlledBuildExecutionOutcomeV1}
    {d : ControlledBuildExecutionRecordV1} {files : ExecutionFiles}
    (houtcome : outcome.buildExecution = status) (hpattern : execution_id_pattern id = true)
    (hdirectory : s.executions_directory = true)
    (hfiles : s.executions id = published_files env.call d files) (hid : d.executionId = id)
    (hrunning : d.status = .running) (hbegun : ReadableRecord env.date_parse ⟨some d, true⟩ d)
    (hreadable : ReadableRecord env.date_parse ⟨some (d.finished status finishedAt outcome), true⟩
      (d.finished status finishedAt outcome)) :
    (finalizeExecutionRecord env stateRoot id status finishedAt outcome).run s =
      (.ok (stored_record stateRoot id (d.finished status finishedAt outcome)),
        s.at_execution id (published_files env.call (d.finished status finishedAt outcome))) := by
  have hunlocked : (s.executions id).lock = none := by
    rw [hfiles]
    rfl
  have htemporary : (s.executions id).temporaries env.call = none := by
    rw [hfiles]
    exact Function.update_self _ _ _
  have hloads : RecordLoads env.date_parse s id d :=
    ⟨hpattern, hdirectory, ⟨some d, true⟩, by rw [hfiles]; rfl, hbegun, rfl⟩
  obtain ⟨result, hrun, hok, -⟩ := @run_finalize env s henv stateRoot id finishedAt status outcome d
    houtcome hloads hid hrunning hunlocked htemporary
  rw [hrun, hok hreadable]

/-- What an execution leaves behind: its record, and everything else as it was. -/
structure Concluded (id : JsString) (d : ControlledBuildExecutionRecordV1) (s t : StateRoot) :
    Prop where
  locks : t.build_locks = s.build_locks
  elsewhere : ∀ other, other ≠ id → t.executions other = s.executions other
  record : (t.executions id).record = some ⟨some d, true⟩
  unlocked : (t.executions id).lock = none

/-- A record has been published over another, and a lock that was free has come and gone. -/
theorem concluded_of_files {id key : JsString} {d : ControlledBuildExecutionRecordV1}
    {t : StateRoot} (hfree : s.build_locks key = none)
    (hlocks : ∃ held, t.build_locks =
      Function.update (Function.update s.build_locks key held) key none)
    (hfiles : ∃ begun call files, t.executions =
      Function.update (Function.update s.executions id begun) id (published_files call d files)) :
    Concluded id d s t := by
  obtain ⟨held, hlocks⟩ := hlocks
  obtain ⟨begun, call, files, hfiles⟩ := hfiles
  refine ⟨?_, fun other hother => ?_, ?_, ?_⟩
  · rw [hlocks, Function.update_idem, ← hfree, Function.update_eq_self]
  · rw [hfiles, Function.update_of_ne hother, Function.update_of_ne hother]
  · rw [hfiles, Function.update_self]
    rfl
  · rw [hfiles, Function.update_self]
    rfl

theorem hold_run (env : Environment) (key : Option JsString) (s : StateRoot) :
    (hold env key).run s =
      (.ok (), { s with holding := Function.update s.holding env.call key }) := rfl

/-- **A build** that nothing disturbs. -/
theorem build_run (henv : env.Quiet) (stateRoot : JsString) {input : CoordinatorInput}
    {profileSha256 reusePolicySha256 : Option JsString} {status : TerminalStatus}
    {finishedAt : JsString} {outcome : ControlledBuildExecutionOutcomeV1}
    (hvalid : valid_lock env.date_parse (lock_document input.lock) = true)
    (hbounded : byte_len (lock_document input.lock).canonical_text ≤ 32 * 1024)
    (hfree : s.build_locks (lock_document input.lock).key = none)
    {identity : ExecutionIdentity} (hidentity : input.identity profileSha256 reusePolicySha256
      (lock_document input.lock).key = identity)
    (hinput : valid_begin_input identity = true) (hfresh : Fresh s input.lock.executionId)
    (hunlocked : (s.executions input.lock.executionId).lock = none)
    (houtcome : outcome.buildExecution = status)
    (hbegun : ReadableRecord env.date_parse ⟨some identity.started, true⟩ identity.started)
    (hreadable : ReadableRecord env.date_parse
      ⟨some (identity.started.finished status finishedAt outcome), true⟩
      (identity.started.finished status finishedAt outcome)) :
    ∃ t, (run_execution env stateRoot input profileSha256 reusePolicySha256 true
        (.finished status finishedAt outcome)).run s = (.ok (.finished .released), t) ∧
      Concluded input.lock.executionId (identity.started.finished status finishedAt outcome) s t := by
  have hid : identity.executionId = input.lock.executionId := by
    rw [← hidentity]
    rfl
  have hpattern : execution_id_pattern input.lock.executionId = true := by
    rw [← hid]
    unfold valid_begin_input at hinput
    rw [Bool.and_eq_true, Bool.and_eq_true] at hinput
    exact hinput.1.1
  obtain ⟨lock, hlock, hacquire⟩ : ∃ lock : StoredBuildLock, lock.document =
      lock_document input.lock ∧ (acquireBuildLock (env.part 0) stateRoot input.lock).run s =
        (.ok lock, ({ s with build_locks_directory := true } : StateRoot).at_lock
          (lock_document input.lock).key
          (some ⟨env.call, some (lock_document input.lock), true⟩)) :=
    run_acquire (henv.part 0) hvalid hbounded hfree
  -- the store under the lock, the one with the record that has begun, and the one with the
  -- record that is finished
  obtain ⟨a, ha⟩ : ∃ a : StateRoot, a = ({ s with build_locks_directory := true } :
      StateRoot).at_lock (lock_document input.lock).key
        (some ⟨env.call, some (lock_document input.lock), true⟩) := ⟨_, rfl⟩
  obtain ⟨u, hu⟩ : ∃ u : StateRoot, u = { a with
      holding := Function.update a.holding env.call (some (lock_document input.lock).key) } :=
    ⟨_, rfl⟩
  rw [← ha] at hacquire
  obtain ⟨v, hv⟩ : ∃ v : StateRoot, v = ({ u with executions_directory := true } :
      StateRoot).at_execution identity.executionId (published_files env.call identity.started) :=
    ⟨_, rfl⟩
  obtain ⟨w, hw⟩ : ∃ w : StateRoot, w = v.at_execution input.lock.executionId
      (published_files env.call (identity.started.finished status finishedAt outcome)) := ⟨_, rfl⟩
  have hexecutions : u.executions = s.executions := by
    rw [hu, ha]
    rfl
  have hbegin : (beginExecutionRecord (env.part 1) stateRoot identity).run u =
      (.ok (stored_record stateRoot identity.executionId identity.started), v) := by
    rw [hv]
    refine run_begin (henv.part 1) hinput ?_ ?_ ?_ hbegun
    · rw [hexecutions, hid]
      exact hfresh.record
    · rw [hexecutions, hid]
      exact hunlocked
    · rw [hexecutions, hid]
      exact hfresh.temporaries _
  have hfinal : (finalizeExecutionRecord (env.part 4) stateRoot input.lock.executionId status
      finishedAt outcome).run v = (.ok (stored_record stateRoot input.lock.executionId
        (identity.started.finished status finishedAt outcome)), w) := by
    rw [hw]
    refine @finalize_own (env.part 4) v (henv.part 4) stateRoot _ finishedAt status outcome _
      (s.executions input.lock.executionId) houtcome hpattern (by rw [hv]; rfl) ?_ hid rfl hbegun
      hreadable
    rw [hv, hid, StateRoot.at_execution_self]
    show _ = published_files env.call identity.started (s.executions input.lock.executionId)
    rw [← hexecutions]
  have hheld : w.build_locks = Function.update s.build_locks (lock_document input.lock).key
      (some ⟨env.call, some (lock_document input.lock), true⟩) := by
    rw [hw, hv, hu, ha]
    rfl
  obtain ⟨x, hx⟩ : ∃ x : StateRoot, x = { w with
      holding := Function.update w.holding env.call none } := ⟨_, rfl⟩
  obtain ⟨y, hy⟩ : ∃ y : StateRoot, y = { x.at_lock (lock_document input.lock).key none with
      releasing := Function.update x.releasing env.call none } := ⟨_, rfl⟩
  have hrelease : (releaseBuildLock (env.part 5) stateRoot
      (lock_document input.lock).expected).run x = (.ok .released, y) := by
    rw [hy]
    refine @release_own (env.part 5) x (henv.part 5) stateRoot input.lock env.call hvalid hbounded
      (by rw [hx, hw, hv, hu, ha]; rfl) ?_
    rw [hx]
    show w.build_locks _ = _
    rw [hheld, Function.update_self]
  have hrun : (run_execution env stateRoot input profileSha256 reusePolicySha256 true
      (.finished status finishedAt outcome)).run s = (.ok (.finished .released), y) := by
    unfold run_execution
    rw [Prog.run_attempt_bind, hacquire]
    dsimp only
    rw [hlock, Prog.run_bind_ok (hold_run _ _ _), ← hu, if_pos rfl, hidentity,
      Prog.run_attempt_bind, hbegin]
    dsimp only
    rw [Prog.run_bind_ok hfinal, Prog.run_bind_ok (hold_run _ _ _), ← hx,
      Prog.run_bind_ok hrelease]
    rfl
  have hexecuted : v.executions = Function.update s.executions identity.executionId
      (published_files env.call identity.started (s.executions identity.executionId)) := by
    rw [hv, ← hexecutions]
    rfl
  refine ⟨y, hrun, concluded_of_files hfree
    ⟨some ⟨env.call, some (lock_document input.lock), true⟩, ?_⟩
    ⟨published_files env.call identity.started (s.executions identity.executionId), env.call,
      v.executions identity.executionId, ?_⟩⟩
  · rw [hy, ← hheld, hx]
    rfl
  · rw [hy, hx, hw, ← hid, ← hexecuted]
    rfl

end Operations

/-! ## The verification -/

section Verifying

variable {env : ReuseEnvironment} {s : StateRoot} {stateRoot : JsString} {r : ReuseReadings}

/-- The snapshot that is taken of these records. -/
def ReuseReadings.snapshot (r : ReuseReadings) (env : ReuseEnvironment)
    (records : List StoredExecutionRecord) : Except StoreFailure ReuseSnapshot :=
  match r.binding, r.attestation with
  | some binding, some attestation =>
    match selectReuseCandidate env.date_parse env.collation_key records
        (r.candidates binding attestation) with
    | none => .ok no_snapshot
    | some candidate =>
      match reuse_evidence candidate.document with
      | none => .ok no_snapshot
      | some evidence => r.trees.map (snapshot_of candidate evidence)
  | _, _ => .ok no_snapshot

/-- What the verification finds among these records. -/
def ReuseReadings.verdict (r : ReuseReadings) (env : ReuseEnvironment)
    (binding : LoadedBinding) (attestation : LoadedAttestation) (before : List Str)
    (records : List StoredExecutionRecord) : Except StoreFailure Verification := do
  let preflight ← r.preflight
  let snapshot ← r.snapshot env records
  let projectAfter ← r.projectAfter
  return ⟨preflight, r.binding.any fun found => decide (found.sha256 = binding.sha256),
    r.attestation.any fun found => decide (found.sha256 = attestation.sha256),
    decide (before = projectAfter), snapshot⟩

theorem run_evaluate {records : List StoredExecutionRecord}
    (hlist : (listExecutionRecords env.toEnvironment env.readdir stateRoot).run s =
      (.ok records, s)) :
    (evaluate_if_valid r env stateRoot r.binding r.attestation).run s =
      (r.snapshot env records, s) := by
  unfold ReuseReadings.snapshot evaluate_if_valid
  -- without both documents no record is read
  cases r.binding with
  | none => rfl
  | some binding =>
    cases r.attestation with
    | none => rfl
    | some attestation =>
      dsimp only
      unfold evaluateReuseSnapshot
      rw [Prog.run_bind_ok hlist]
      cases hselect : selectReuseCandidate env.date_parse env.collation_key records
        (r.candidates binding attestation) with
      | none => rfl
      | some candidate =>
        dsimp only
        cases reuse_evidence candidate.document with
        | none => rfl
        | some evidence =>
          dsimp only
          rw [run_lift_bind]
          cases r.trees <;> rfl

theorem run_verify (r : ReuseReadings) (binding : LoadedBinding) (attestation : LoadedAttestation)
    (before : List Str) {records : List StoredExecutionRecord}
    (hlist : (listExecutionRecords env.toEnvironment env.readdir stateRoot).run s =
      (.ok records, s)) :
    (verify_under_lock r env stateRoot binding attestation before).run s =
      (r.verdict env binding attestation before records, s) := by
  unfold verify_under_lock ReuseReadings.verdict
  -- only the list of records looks at the store; the first failure ends the verification
  rw [run_lift_bind]
  cases r.preflight with
  | error e => rfl
  | ok preflight =>
    dsimp only
    have hevaluate := run_evaluate (r := r) hlist
    cases hsnapshot : r.snapshot env records with
    | error e =>
      rw [hsnapshot] at hevaluate
      rw [Prog.run_bind_error hevaluate]
      rfl
    | ok snapshot =>
      rw [hsnapshot] at hevaluate
      rw [Prog.run_bind_ok hevaluate, run_lift_bind]
      cases r.projectAfter <;> rfl

/-- How a transaction ends: the status and the outcome of its record, and its report without
the record. -/
def ReuseReadings.ending (r : ReuseReadings) : Except StoreFailure Verification →
    TerminalStatus × ControlledBuildExecutionOutcomeV1 × ReuseTransactionReport
  | .error e => (.failed, error_outcome e.message,
      ⟨.failed, .failed, false, none, none, none, none, none⟩)
  | .ok v =>
    match v.reusable r.cancelled.isSome with
    | none => (.failed, failed_outcome v r.cancelled,
        ⟨.failed, .failed, v.preflight.approved,
          v.snapshot.candidate.map fun candidate => candidate.document.executionId,
          v.snapshot.projectInput, v.snapshot.projectOutput, r.cancelled, none⟩)
    | some (candidate, evidence, tree) => (.reused, reused_outcome candidate evidence tree,
        ⟨.reused, .reused, true, some candidate.document.executionId, v.snapshot.projectInput,
          v.snapshot.projectOutput, none, none⟩)

theorem conclude_ending (lock : StoredBuildLock) (verified : Except StoreFailure Verification) :
    conclude env stateRoot r lock verified = finish_transaction env stateRoot r lock
      (r.ending verified).1 (r.ending verified).2.1 (r.ending verified).2.2 := by
  unfold conclude ReuseReadings.ending
  cases verified with
  | error e => rfl
  | ok v =>
    dsimp only
    cases v.reusable r.cancelled.isSome <;> rfl

theorem ending_outcome (verified : Except StoreFailure Verification) :
    (r.ending verified).2.1.buildExecution = (r.ending verified).1 := by
  unfold ReuseReadings.ending
  cases verified with
  | error e => rfl
  | ok v =>
    dsimp only
    cases v.reusable r.cancelled.isSome <;> rfl

theorem ending_not_completed (verified : Except StoreFailure Verification) :
    (r.ending verified).1 ≠ .completed := by
  unfold ReuseReadings.ending
  cases verified with
  | error e => simp
  | ok v =>
    dsimp only
    cases v.reusable r.cancelled.isSome <;> simp

/-- **When a build is reused.** -/
theorem ending_reused (verified : Except StoreFailure Verification) :
    (r.ending verified).2.2.status = .reused ↔ ∃ v, verified = .ok v ∧
      (v.reusable r.cancelled.isSome).isSome = true := by
  unfold ReuseReadings.ending
  cases verified with
  | error e => simp
  | ok v =>
    dsimp only
    cases hreusable : v.reusable r.cancelled.isSome <;> simp [hreusable]

theorem ending_status (verified : Except StoreFailure Verification) :
    (r.ending verified).2.2.status = .reused ↔ (r.ending verified).1 = .reused := by
  unfold ReuseReadings.ending
  cases verified with
  | error e => simp
  | ok v =>
    dsimp only
    cases hreusable : v.reusable r.cancelled.isSome <;> simp

end Verifying

/-! ## The whole transaction -/

section Transactions

variable {env : ReuseEnvironment} {stateRoot : JsString} {r : ReuseReadings} {s : StateRoot}
  {binding : LoadedBinding} {attestation : LoadedAttestation} {before : List Str}

/-- The record with which a transaction begins. -/
def ReuseReadings.begun (r : ReuseReadings) (binding : LoadedBinding)
    (attestation : LoadedAttestation) (before : List Str) : ControlledBuildExecutionRecordV1 :=
  (r.record binding attestation (lock_document (r.lock binding)).key before).started

/-- The store while a transaction verifies. -/
def ReuseReadings.during (r : ReuseReadings) (env : ReuseEnvironment) (binding : LoadedBinding)
    (attestation : LoadedAttestation) (before : List Str) (s : StateRoot) : StateRoot :=
  ({ s with build_locks_directory := true, executions_directory := true } : StateRoot).at_lock
    (lock_document (r.lock binding)).key
    (some ⟨env.call, some (lock_document (r.lock binding)), true⟩) |>.at_execution r.executionId
      (published_files env.call (r.begun binding attestation before))

/-- Nothing is in the way of a transaction until it verifies. -/
structure Unobstructed (env : ReuseEnvironment) (r : ReuseReadings) (binding : LoadedBinding)
    (attestation : LoadedAttestation) (before : List Str) (s : StateRoot) : Prop where
  quiet : env.toEnvironment.Quiet
  wanted : r.aborted = false
  inside : r.inside = true
  bound : r.initialBinding = some binding
  attested : r.initialAttestation = some attestation
  surveyed : r.projectBefore = .ok before
  lock_valid : valid_lock env.date_parse (lock_document (r.lock binding)) = true
  lock_bounded : byte_len (lock_document (r.lock binding)).canonical_text ≤ 32 * 1024
  lock_free : s.build_locks (lock_document (r.lock binding)).key = none
  begins : valid_begin_input
    (r.record binding attestation (lock_document (r.lock binding)).key before) = true
  readable : ReadableRecord env.date_parse ⟨some (r.begun binding attestation before), true⟩
    (r.begun binding attestation before)
  fresh : Fresh s r.executionId
  unlocked : (s.executions r.executionId).lock = none

/-- The records of the store are listed, and they can be loaded. -/
structure AllLoad (env : ReuseEnvironment) (s : StateRoot) : Prop where
  listed : ListsRecords env.readdir s
  few : (record_ids (env.readdir s)).length ≤ 10000
  loads : ∀ id, ((s.executions id).record).isSome = true → ∃ d, RecordLoads env.date_parse s id d

/-- All records are loaded, and the list is one of the store. -/
theorem AllLoad.list (stateRoot : JsString) (h : AllLoad env s) (henv : env.toEnvironment.Quiet)
    (hdirectory : s.executions_directory = true) :
    ∃ records, Lists env.date_parse s records ∧
      (listExecutionRecords env.toEnvironment env.readdir stateRoot).run s = (.ok records, s) := by
  have hdocuments : ∀ ids : List JsString, (∀ id ∈ ids, ((s.executions id).record).isSome = true) →
      ∃ documents, List.Forall₂ (RecordLoads env.date_parse s) ids documents := by
    intro ids
    induction ids with
    | nil => exact fun _ => ⟨[], .nil⟩
    | cons id ids ih =>
      intro hids
      obtain ⟨d, hd⟩ := h.loads id (hids id List.mem_cons_self)
      obtain ⟨documents, hrest⟩ := ih fun other hother => hids other (List.mem_cons_of_mem _ hother)
      exact ⟨d :: documents, .cons hd hrest⟩
  obtain ⟨documents, hloads⟩ := hdocuments (record_ids (env.readdir s)) fun id hid =>
    (h.listed.records id).mp (mem_record_ids.mp hid)
  have hrun := run_list stateRoot henv hdirectory h.few hloads
  have hlooks : Looks s (Lists env.date_parse s)
      (listExecutionRecords env.toEnvironment env.readdir stateRoot) := looks_list h.listed
  exact ⟨_, (hlooks.run_ok (congrArg Prod.fst hrun)).2, hrun⟩

/-- The record with which a transaction ends. -/
def ReuseReadings.closed (r : ReuseReadings) (binding : LoadedBinding)
    (attestation : LoadedAttestation) (before : List Str)
    (verified : Except StoreFailure Verification) : ControlledBuildExecutionRecordV1 :=
  (r.begun binding attestation before).finished (r.ending verified).1 r.finishedAt
    (r.ending verified).2.1

theorem acquired_run (stateRoot : JsString) (h : Unobstructed env r binding attestation before s) :
    ∃ lock : StoredBuildLock, lock.document = lock_document (r.lock binding) ∧
      (acquireBuildLock (env.part 0) stateRoot (r.lock binding)).run s = (.ok lock,
        ({ s with build_locks_directory := true } : StateRoot).at_lock
          (lock_document (r.lock binding)).key
          (some ⟨env.call, some (lock_document (r.lock binding)), true⟩)) := by
  have hrun : ∃ lock : StoredBuildLock, _ ∧ (acquireBuildLock (env.part 0) stateRoot
      (r.lock binding)).run s = (.ok lock, _) :=
    run_acquire (h.quiet.part 0) h.lock_valid h.lock_bounded h.lock_free
  exact hrun

theorem begun_run (h : Unobstructed env r binding attestation before s) {lock : StoredBuildLock}
    (hlock : lock.document = lock_document (r.lock binding)) :
    (begin_transaction env stateRoot r binding attestation lock).run
      (({ s with build_locks_directory := true } : StateRoot).at_lock
        (lock_document (r.lock binding)).key
        (some ⟨env.call, some (lock_document (r.lock binding)), true⟩)) =
      (.ok before, r.during env binding attestation before s) := by
  have hrun := @run_begin (env.part 1) (({ s with build_locks_directory := true } :
    StateRoot).at_lock (lock_document (r.lock binding)).key
      (some ⟨env.call, some (lock_document (r.lock binding)), true⟩)) stateRoot (h.quiet.part 1)
    (r.record binding attestation (lock_document (r.lock binding)).key before) h.begins
    h.fresh.record h.unlocked (h.fresh.temporaries _) h.readable
  unfold begin_transaction
  rw [run_lift_bind, h.surveyed]
  dsimp only
  rw [hlock, Prog.run_bind_ok hrun]
  rfl

/-- The record of the transaction can be loaded while it verifies. -/
theorem begun_loads (h : Unobstructed env r binding attestation before s) :
    RecordLoads env.date_parse (r.during env binding attestation before s) r.executionId
      (r.begun binding attestation before) := by
  have hpattern : execution_id_pattern r.executionId = true := by
    have hbegins := h.begins
    unfold valid_begin_input at hbegins
    rw [Bool.and_eq_true, Bool.and_eq_true] at hbegins
    exact hbegins.1.1
  refine ⟨hpattern, rfl, ⟨some (r.begun binding attestation before), true⟩, ?_, h.readable, rfl⟩
  unfold ReuseReadings.during
  rw [StateRoot.at_execution_self]
  rfl

theorem finish_run (stateRoot : JsString)
    (h : Unobstructed env r binding attestation before s) {lock : StoredBuildLock}
    (hlock : lock.document = lock_document (r.lock binding))
    (verified : Except StoreFailure Verification)
    (hreadable : ReadableRecord env.date_parse
      ⟨some (r.closed binding attestation before verified), true⟩
      (r.closed binding attestation before verified)) :
    ∃ t, (conclude env stateRoot r lock verified).run (r.during env binding attestation before s) =
        (.ok { (r.ending verified).2.2 with executionRecord := some (stored_record stateRoot
          r.executionId (r.closed binding attestation before verified)) }, t) ∧
      Concluded r.executionId (r.closed binding attestation before verified) s t := by
  obtain ⟨u, hu⟩ : ∃ u : StateRoot, u = (r.during env binding attestation before s).at_execution
      r.executionId (published_files env.call (r.closed binding attestation before verified)) :=
    ⟨_, rfl⟩
  have hpattern : execution_id_pattern r.executionId = true := by
    obtain ⟨hpattern, -⟩ := begun_loads h
    exact hpattern
  have hfiles : (r.during env binding attestation before s).executions r.executionId =
      published_files env.call (r.begun binding attestation before) (s.executions r.executionId) := by
    unfold ReuseReadings.during
    rw [StateRoot.at_execution_self]
    rfl
  have hclosed : (finalizeExecutionRecord (env.part 4) stateRoot r.executionId
      (r.ending verified).1 r.finishedAt (r.ending verified).2.1).run
        (r.during env binding attestation before s) =
      (.ok (stored_record stateRoot r.executionId (r.closed binding attestation before verified)),
        u) := by
    rw [hu]
    exact finalize_own (h.quiet.part 4) stateRoot (ending_outcome verified) hpattern rfl hfiles rfl
      rfl h.readable hreadable
  have hheld : u.build_locks = Function.update s.build_locks (lock_document (r.lock binding)).key
      (some ⟨env.call, some (lock_document (r.lock binding)), true⟩) := by
    rw [hu]
    rfl
  have hreleased := @release_own (env.part 5) u (h.quiet.part 5) stateRoot _ env.call h.lock_valid
    h.lock_bounded (by rw [hu]; rfl) (by rw [hheld, Function.update_self])
  have hreference : recordReference (stored_record stateRoot r.executionId
      (r.closed binding attestation before verified)) = .ok (stored_record stateRoot r.executionId
        (r.closed binding attestation before verified)) := by
    unfold recordReference
    -- only a completed record is refused here
    rw [if_neg]
    intro hstatus
    exact ending_not_completed verified (ExecutionStatus.terminal.inj hstatus)
  rw [conclude_ending]
  unfold finish_transaction
  rw [Prog.run_bind_ok hclosed, hlock, Prog.run_bind_ok hreleased, run_lift_bind, hreference]
  have hexecuted : (r.during env binding attestation before s).executions = Function.update
      s.executions r.executionId (published_files env.call (r.begun binding attestation before)
        (s.executions r.executionId)) := rfl
  refine ⟨_, rfl, concluded_of_files h.lock_free
    ⟨some ⟨env.call, some (lock_document (r.lock binding)), true⟩, ?_⟩
    ⟨published_files env.call (r.begun binding attestation before) (s.executions r.executionId),
      env.call, (r.during env binding attestation before s).executions r.executionId, ?_⟩⟩
  · rw [← hheld]
    rfl
  · rw [hu, ← hexecuted]
    rfl

/-- **A whole transaction**, with what its verification finds among the records. -/
theorem transaction_run (h : Unobstructed env r binding attestation before s)
    {records : List StoredExecutionRecord}
    (hlist : (listExecutionRecords (env.part 3) env.readdir stateRoot).run
      (r.during env binding attestation before s) =
        (.ok records, r.during env binding attestation before s))
    {verified : Except StoreFailure Verification}
    (hverified : r.verdict env binding attestation before records = verified)
    (hreadable : ReadableRecord env.date_parse
      ⟨some (r.closed binding attestation before verified), true⟩
      (r.closed binding attestation before verified)) :
    ∃ t, (Reuse.runReuseTransaction env stateRoot r).run s =
        (.ok { (r.ending verified).2.2 with executionRecord := some (stored_record stateRoot
          r.executionId (r.closed binding attestation before verified)) }, t) ∧
      Concluded r.executionId (r.closed binding attestation before verified) s t := by
  obtain ⟨lock, hlock, hacquire⟩ := acquired_run stateRoot h
  have hverify : (verify_under_lock r { env with toEnvironment := env.part 3 } stateRoot binding
      attestation before).run (r.during env binding attestation before s) =
      (verified, r.during env binding attestation before s) := by
    rw [← hverified]
    exact @run_verify { env with toEnvironment := env.part 3 } _ stateRoot r binding attestation
      before records hlist
  obtain ⟨t, hfinish, hconcluded⟩ := finish_run stateRoot h hlock verified hreadable
  refine ⟨t, ?_, hconcluded⟩
  unfold runReuseTransaction
  rw [h.wanted, h.inside, if_neg (by decide), h.bound, h.attested]
  dsimp only
  -- the lock, the record that begins, the verification, and the end that follows from it
  unfold transact
  rw [Prog.run_attempt_bind, hacquire]
  dsimp only
  rw [Prog.run_attempt_bind, begun_run h hlock]
  dsimp only
  rw [Prog.run_attempt_bind, hverify]
  exact hfinish

/-- The records of the store are listed, few enough, and can be loaded, whatever the record of
the transaction is. -/
structure AllLoadable (env : ReuseEnvironment) (r : ReuseReadings) (s : StateRoot) : Prop where
  listed : Listed env.readdir r.executionId s
  few : ∀ t : StateRoot, (∀ other, other ≠ r.executionId → t.executions other = s.executions other) →
    (record_ids (env.readdir t)).length ≤ 10000
  loads : ∀ id file, id ≠ r.executionId → (s.executions id).record = some file →
    execution_id_pattern id = true ∧ file.read_only = true ∧ ∃ d, ReadableRecord env.date_parse file d

theorem during_other {id : JsString} (hid : id ≠ r.executionId) :
    (r.during env binding attestation before s).executions id = s.executions id :=
  StateRoot.at_execution_other _ hid _

theorem AllLoadable.during (hall : AllLoadable env r s)
    (h : Unobstructed env r binding attestation before s) :
    AllLoad env (r.during env binding attestation before s) := by
  have helsewhere : ∀ other, other ≠ r.executionId →
      (r.during env binding attestation before s).executions other = s.executions other :=
    fun _ hother => during_other hother
  refine ⟨hall.listed _ helsewhere, hall.few _ helsewhere, fun id hsome => ?_⟩
  -- the only record that the transaction has written is its own
  by_cases hid : id = r.executionId
  · rw [hid]
    exact ⟨_, begun_loads h⟩
  · rw [helsewhere id hid] at hsome
    obtain ⟨file, hfile⟩ := Option.isSome_iff_exists.mp hsome
    obtain ⟨hpattern, hmode, d, hreadable⟩ := hall.loads id file hid hfile
    exact ⟨d, hpattern, rfl, file, by rw [helsewhere id hid]; exact hfile, hreadable, hmode⟩

end Transactions

/-! ## A build and its reuse -/

def sample_tree : ReuseTreeEvidenceV1 := ⟨sample_sha, 1, 1, 0⟩

def sample_evidence : ProjectBuildReuseEvidenceV1 := ⟨sample_tree, sample_tree⟩

/-- The outcome of a build that Lake has run to its end. -/
def sample_build_outcome : ControlledBuildExecutionOutcomeV1 :=
  { bare_outcome .completed with
    lakeExitCode := some 0
    projectProtectedRecordsStable := some true
    bindingStable := some true
    attestationStable := some true
    inspectionStable := some true
    terminationReason := some .exit
    processGroupReaped := some true
    reuseEvidence := some sample_evidence }

def sample_build : Work :=
  .finished .completed (js "2026-01-01T00:00:01.000Z") sample_build_outcome

/-- The id of the transaction. -/
def sample_reuse_id : JsString := js "00000000-0000-4000-8000-000000000001"

/-- The records of the two executions that there are. -/
def sample_readdir (s : StateRoot) : List JsString :=
  [sample_id, sample_reuse_id].filterMap fun id =>
    (s.executions id).record.map fun _ => id ++ js ".json"

def sample_environment : ReuseEnvironment where
  toEnvironment := { quiet_environment with call := 1 }
  collation_key := fun id => id.map UInt16.toNat
  readdir := sample_readdir

def sample_canonical_tree (schema : String) : CanonicalTreeHash :=
  ⟨js schema, sample_sha, 1, 1, 0, []⟩

def sample_readings : ReuseReadings where
  project := js "/p"
  target := js "Main"
  aborted := false
  inside := true
  initialBinding := some ⟨project_id (js "/p"), sample_sha, sample_sha⟩
  initialAttestation := some ⟨sample_sha, sample_sha⟩
  executionId := sample_reuse_id
  pid := 8
  acquiredAt := js "2026-01-01T00:00:02.000Z"
  startedAt := js "2026-01-01T00:00:02.000Z"
  finishedAt := js "2026-01-01T00:00:03.000Z"
  projectBefore := .ok []
  preflight := .ok ⟨true, some ⟨sample_sha, 0⟩⟩
  cancelled := none
  binding := some ⟨project_id (js "/p"), sample_sha, sample_sha⟩
  attestation := some ⟨sample_sha, sample_sha⟩
  trees := .ok (sample_canonical_tree "leanbun-project-input-tree-v1",
    sample_canonical_tree "leanbun-project-output-tree-v1")
  projectAfter := .ok []

/-- The store after the build. -/
def sample_built : StateRoot :=
  ((runControlledBuildProbe quiet_environment [] sample_input sample_sha sample_build).run
    fresh_root).2

/-- What the transaction returns, and the store after it. -/
def sample_reuse : Except StoreFailure ReuseTransactionReport × StateRoot :=
  (Reuse.runReuseTransaction sample_environment [] sample_readings).run sample_built

theorem fresh_root_fresh (id : JsString) : Fresh fresh_root id := ⟨rfl, fun _ => rfl⟩

/-! ### The build -/

theorem hash_text_pattern (text : Str) : sha_pattern (hash_text text) = true :=
  Documents.sha_pattern_digest _

/-- A lock document is valid if its identity is one. -/
theorem valid_lock_document {date_parse : JsString → Option ℤ} {input : LockIdentity}
    (hid : execution_id_pattern input.executionId = true) (hpath : input.projectPath.isEmpty = false)
    (hproject : input.projectId = project_id input.projectPath)
    (himage : sha_pattern input.imageId = true) (htarget : input.target.isEmpty = false)
    (hpid : is_safe_integer input.coordinatorPid = true) (hpositive : 0 < input.coordinatorPid)
    (hat : valid_timestamp date_parse input.acquiredAt = true) :
    valid_lock date_parse (lock_document input) = true := by
  have hkey : sha_pattern (lock_document input).key = true := hash_text_pattern _
  have hproject' : sha_pattern input.projectId = true := by
    rw [hproject]
    exact hash_text_pattern _
  unfold valid_lock
  simp only [Bool.and_eq_true, decide_eq_true_eq, Bool.not_eq_true']
  exact ⟨⟨⟨⟨⟨⟨⟨⟨⟨⟨hkey, hid⟩, hproject'⟩, hpath⟩, himage⟩, htarget⟩, hpid⟩, hpositive⟩, hat⟩, rfl⟩,
    hproject⟩

theorem sample_sha_pattern : sha_pattern sample_sha = true := by
  unfold sha_pattern sample_sha
  rw [List.length_replicate, List.all_replicate]
  rfl

theorem sample_id_pattern : execution_id_pattern sample_id = true := by decide

theorem project_id_pattern (path : JsString) : sha_pattern (project_id path) = true :=
  hash_text_pattern _

theorem lock_key_pattern (input : LockIdentity) : sha_pattern (lock_document input).key = true :=
  hash_text_pattern _

theorem build_key_pattern (input : CoordinatorInput) (profile reuse : Option JsString)
    (lock : LockIdentity) :
    optional_sha (input.identity profile reuse (lock_document lock).key).buildLockKey = true :=
  lock_key_pattern lock

theorem reuse_key_pattern (r : ReuseReadings) (binding : LoadedBinding)
    (attestation : LoadedAttestation) (lock : LockIdentity) (before : List Str) :
    optional_sha (r.record binding attestation (lock_document lock).key before).buildLockKey =
      true :=
  lock_key_pattern lock

theorem sample_lock_valid :
    valid_lock quiet_environment.date_parse (lock_document sample_input.lock) = true := by
  have hproject : sample_input.lock.projectId = project_id sample_input.lock.projectPath := by
    simp only [sample_input]
  exact valid_lock_document sample_id_pattern rfl hproject sample_sha_pattern rfl (by decide)
    (by decide) rfl

/-- What the build begins. -/
def sample_build_identity : ExecutionIdentity :=
  sample_input.identity (some sample_sha) none (lock_document sample_input.lock).key

/-- The record of the build. -/
def sample_build_record : ControlledBuildExecutionRecordV1 :=
  sample_build_identity.started.finished .completed (js "2026-01-01T00:00:01.000Z")
    sample_build_outcome

theorem sample_build_identity_valid :
    valid_identity quiet_environment.date_parse sample_build_identity = true := by
  have hsha := sample_sha_pattern
  have hshas : [sample_sha, sample_sha, sample_sha, sample_sha].all sha_pattern = true := by
    simp [hsha]
  have hpolicy : valid_policy (some sample_sha) none = true := by simp [valid_policy, hsha]
  have hrecovery : valid_recovery sample_build_identity = true := by
    show (is_safe_integer 7 && decide ((0 : ℤ) < 7) && sha_pattern sample_sha &&
      is_safe_integer 0 && decide ((0 : ℤ) ≤ 0)) = true
    rw [hsha]
    decide
  have hproject : sha_pattern sample_build_identity.projectId = true := by
    simp only [sample_build_identity, CoordinatorInput.identity, sample_input, project_id_pattern]
  have hkey : optional_sha sample_build_identity.buildLockKey = true :=
    build_key_pattern sample_input _ _ _
  unfold valid_identity
  simp only [Bool.and_eq_true]
  exact ⟨⟨⟨⟨⟨⟨⟨⟨sample_id_pattern, hproject⟩, rfl⟩, rfl⟩, hshas⟩, rfl⟩, hpolicy⟩, hkey⟩,
    hrecovery⟩

theorem sample_build_begun : ReadableRecord quiet_environment.date_parse
    ⟨some sample_build_identity.started, true⟩ sample_build_identity.started := by
  refine readable_record ?_ rfl (by decide)
  unfold valid_record
  rw [Bool.and_eq_true]
  exact ⟨sample_build_identity_valid, rfl⟩

theorem sample_build_readable : ReadableRecord quiet_environment.date_parse
    ⟨some sample_build_record, true⟩ sample_build_record := by
  refine readable_record ?_ (by decide) (by decide)
  unfold valid_record
  rw [Bool.and_eq_true]
  exact ⟨sample_build_identity_valid, by decide⟩

/-- What the build leaves behind. -/
theorem sample_build_concluded :
    Concluded sample_id sample_build_record fresh_root sample_built := by
  have hquiet : quiet_environment.Quiet := fun _ _ => rfl
  obtain ⟨t, hrun, hconcluded⟩ := build_run hquiet [] sample_lock_valid
    (lock_bounded sample_lock_valid (by decide)) rfl
    (show sample_input.identity (some sample_sha) none (lock_document sample_input.lock).key =
      sample_build_identity from rfl) (by decide) (fresh_root_fresh _) rfl
    (show sample_build_outcome.buildExecution = .completed from rfl) sample_build_begun
    sample_build_readable
  have hprobe : (runControlledBuildProbe quiet_environment [] sample_input sample_sha
      sample_build).run fresh_root = (.ok (.finished .released), t) := hrun
  rw [sample_built, hprobe]
  exact hconcluded

theorem sample_ids_differ : sample_reuse_id ≠ sample_id := by decide

/-- The build has left the other executions as they were. -/
theorem sample_built_elsewhere {id : JsString} (hid : id ≠ sample_id) :
    sample_built.executions id = fresh_root.executions id :=
  sample_build_concluded.elsewhere id hid

theorem sample_reuse_fresh : Fresh sample_built sample_reuse_id := by
  have hother := sample_built_elsewhere sample_ids_differ
  constructor
  · rw [hother]
    exact (fresh_root_fresh sample_reuse_id).record
  · intro call
    rw [hother]
    exact (fresh_root_fresh sample_reuse_id).temporaries call

/-! ### The transaction -/

def sample_binding : LoadedBinding := ⟨project_id (js "/p"), sample_sha, sample_sha⟩

def sample_attestation : LoadedAttestation := ⟨sample_sha, sample_sha⟩

theorem sample_reuse_id_pattern : execution_id_pattern sample_reuse_id = true := by decide

theorem sample_reuse_lock_valid : valid_lock sample_environment.date_parse
    (lock_document (sample_readings.lock sample_binding)) = true := by
  have hproject : (sample_readings.lock sample_binding).projectId =
      project_id (sample_readings.lock sample_binding).projectPath := by
    simp only [ReuseReadings.lock, sample_readings, sample_binding]
  exact valid_lock_document sample_reuse_id_pattern rfl hproject sample_sha_pattern rfl (by decide)
    (by decide) rfl

/-- What the transaction begins. -/
def sample_reuse_identity : ExecutionIdentity :=
  sample_readings.record sample_binding sample_attestation
    (lock_document (sample_readings.lock sample_binding)).key []

theorem sample_policy : valid_policy none (some reusePolicySha256) = true := by
  have hpolicy : sha_pattern reusePolicySha256 = true := hash_text_pattern _
  simp [valid_policy, hpolicy]

theorem sample_reuse_identity_valid :
    valid_identity sample_environment.date_parse sample_reuse_identity = true := by
  have hshas : [sample_sha, sample_sha, sample_sha, sample_sha].all sha_pattern = true := by
    simp [sample_sha_pattern]
  have hrecovery : valid_recovery sample_reuse_identity = true := by
    have hprotected : sha_pattern (hashProtectedProjectRecords []) = true := hash_text_pattern _
    show (is_safe_integer 8 && decide ((0 : ℤ) < 8) && sha_pattern (hashProtectedProjectRecords []) &&
      is_safe_integer 0 && decide ((0 : ℤ) ≤ 0)) = true
    rw [hprotected]
    decide
  have hproject : sha_pattern sample_reuse_identity.projectId = true := by
    simp only [sample_reuse_identity, ReuseReadings.record, sample_binding, project_id_pattern]
  have hkey : optional_sha sample_reuse_identity.buildLockKey = true :=
    reuse_key_pattern sample_readings _ _ _ _
  have hpolicy : valid_policy sample_reuse_identity.profileSha256
      sample_reuse_identity.reusePolicySha256 = true := by
    simp only [sample_reuse_identity, ReuseReadings.record, sample_policy]
  unfold valid_identity
  simp only [Bool.and_eq_true]
  exact ⟨⟨⟨⟨⟨⟨⟨⟨sample_reuse_id_pattern, hproject⟩, rfl⟩, rfl⟩, hshas⟩, rfl⟩,
    hpolicy⟩, hkey⟩, hrecovery⟩

theorem sample_reuse_begun : ReadableRecord sample_environment.date_parse
    ⟨some sample_reuse_identity.started, true⟩ sample_reuse_identity.started := by
  refine readable_record ?_ rfl (by decide)
  unfold valid_record
  rw [Bool.and_eq_true]
  exact ⟨sample_reuse_identity_valid, rfl⟩

/-- Nothing is in the way of the transaction. -/
theorem sample_unobstructed : Unobstructed sample_environment sample_readings sample_binding
    sample_attestation [] sample_built where
  quiet := fun _ _ => rfl
  wanted := rfl
  inside := rfl
  bound := rfl
  attested := rfl
  surveyed := rfl
  lock_valid := sample_reuse_lock_valid
  lock_bounded := lock_bounded sample_reuse_lock_valid (by decide)
  lock_free := by
    rw [sample_build_concluded.locks]
    rfl
  begins := by
    have hshas : [sample_sha, sample_sha, sample_sha, sample_sha].all sha_pattern = true := by
      simp [sample_sha_pattern]
    unfold valid_begin_input
    simp only [Bool.and_eq_true]
    exact ⟨⟨sample_reuse_id_pattern, hshas⟩, sample_policy⟩
  readable := sample_reuse_begun
  fresh := sample_reuse_fresh
  unlocked := by
    have hid : sample_readings.executionId = sample_reuse_id := rfl
    rw [hid, sample_built_elsewhere sample_ids_differ]
    rfl

/-- The two ids are the only ones with a record. -/
theorem sample_listed : Listed sample_readdir sample_reuse_id sample_built := by
  intro s hs
  constructor
  · refine List.Nodup.filterMap (fun id other name hid hother => ?_)
      (List.nodup_cons.mpr ⟨by simp [sample_ids_differ.symm], List.nodup_singleton _⟩)
    obtain ⟨_, -, rfl⟩ := Option.map_eq_some_iff.mp hid
    obtain ⟨_, -, hname⟩ := Option.map_eq_some_iff.mp hother
    exact (List.append_cancel_right hname).symm
  · intro id
    unfold sample_readdir
    rw [List.mem_filterMap]
    constructor
    · rintro ⟨other, -, hname⟩
      obtain ⟨file, hfile, hname⟩ := Option.map_eq_some_iff.mp hname
      rw [← List.append_cancel_right hname, hfile]
      rfl
    · intro hsome
      obtain ⟨file, hfile⟩ := Option.isSome_iff_exists.mp hsome
      refine ⟨id, ?_, by rw [hfile, Option.map_some]⟩
      by_contra hmem
      simp only [List.mem_cons, List.not_mem_nil, or_false, not_or] at hmem
      rw [hs id hmem.2, sample_built_elsewhere hmem.1, (fresh_root_fresh id).record] at hfile
      cases hfile

theorem sample_loadable : AllLoadable sample_environment sample_readings sample_built where
  listed := sample_listed
  few t _ := by
    have hlength : (sample_readdir t).length ≤ 2 := List.length_filterMap_le _ _
    unfold record_ids
    rw [List.length_map, (sort_by_key_perm _ _).length_eq]
    have hfilter := List.length_filter_le (fun name => (js ".json").isSuffixOf name)
      (sample_environment.readdir t)
    have hreaddir : sample_environment.readdir t = sample_readdir t := rfl
    rw [hreaddir] at hfilter
    exact le_trans hfilter (by omega)
  loads id file hid hfile := by
    have hown : id = sample_id := by
      by_contra hother
      rw [sample_built_elsewhere hother, (fresh_root_fresh id).record] at hfile
      cases hfile
    rw [hown, sample_build_concluded.record, Option.some.injEq] at hfile
    rw [hown, ← hfile]
    exact ⟨sample_id_pattern, rfl, sample_build_record, sample_build_readable⟩

/-- The store while the transaction verifies. -/
def sample_during : StateRoot :=
  sample_readings.during sample_environment sample_binding sample_attestation [] sample_built

/-- The records that the transaction lists. -/
def sample_records : List StoredExecutionRecord :=
  [stored_record [] sample_id sample_build_record,
    stored_record [] sample_reuse_id sample_reuse_identity.started]

/-- The list of the two records, in any store that has them. -/
theorem sample_record_ids {s : StateRoot} {file other : StoredFile}
    (hfile : (s.executions sample_id).record = some file)
    (hother : (s.executions sample_reuse_id).record = some other) :
    record_ids (sample_readdir s) = [sample_id, sample_reuse_id] := by
  unfold sample_readdir
  simp only [List.filterMap_cons, hfile, hother, Option.map_some, List.filterMap_nil]
  decide

theorem sample_list :
    (listExecutionRecords (sample_environment.part 3) sample_readdir []).run sample_during =
      (.ok sample_records, sample_during) := by
  have hbuild : (sample_during.executions sample_id).record =
      some ⟨some sample_build_record, true⟩ := by
    have helsewhere : sample_during.executions sample_id = sample_built.executions sample_id := by
      rw [sample_during]
      exact during_other sample_ids_differ.symm
    rw [helsewhere]
    exact sample_build_concluded.record
  have hreuse : RecordLoads sample_environment.date_parse sample_during sample_reuse_id
      sample_reuse_identity.started := by
    rw [sample_during]
    exact begun_loads sample_unobstructed
  have hdirectory : sample_during.executions_directory = true := by
    rw [sample_during]
    rfl
  have hloads : RecordLoads sample_environment.date_parse sample_during sample_id
      sample_build_record :=
    ⟨sample_id_pattern, hdirectory, ⟨some sample_build_record, true⟩, hbuild,
      sample_build_readable, rfl⟩
  have hids : record_ids (sample_readdir sample_during) = [sample_id, sample_reuse_id] := by
    obtain ⟨-, -, file, hfile, -, -⟩ := hreuse
    exact sample_record_ids hbuild hfile
  have hrun := @run_list (sample_environment.part 3) sample_during [] (fun _ _ => rfl) sample_readdir
    hdirectory (by rw [hids]; decide) [sample_build_record, sample_reuse_identity.started] (by
      rw [hids]
      exact .cons hloads (.cons hreuse .nil))
  rw [hids] at hrun
  exact hrun

/-- The build is the one that is selected. -/
theorem sample_selected : selectReuseCandidate sample_environment.date_parse
    sample_environment.collation_key sample_records
    (sample_readings.candidates sample_binding sample_attestation) =
      some (stored_record [] sample_id sample_build_record) := by
  have hbuild : successfulCandidate (stored_record [] sample_id sample_build_record)
      (sample_readings.candidates sample_binding sample_attestation) = true := by
    unfold successfulCandidate
    simp only [stored_record, sample_build_record, sample_build_identity,
      CoordinatorInput.identity, ExecutionIdentity.started, sample_input,
      ControlledBuildExecutionRecordV1.finished, ReuseReadings.candidates, sample_readings,
      sample_binding, sample_attestation, decide_true, Bool.true_and, Option.any_some]
    decide
  have hreuse : successfulCandidate (stored_record [] sample_reuse_id sample_reuse_identity.started)
      (sample_readings.candidates sample_binding sample_attestation) = false := rfl
  unfold selectReuseCandidate sample_records
  simp only [List.filter_cons, hbuild, hreuse, List.filter_nil, if_true, Bool.false_eq_true,
    if_false]
  rfl

theorem sample_snapshot : sample_readings.snapshot sample_environment sample_records =
    .ok (snapshot_of (stored_record [] sample_id sample_build_record) sample_evidence
      (sample_canonical_tree "leanbun-project-input-tree-v1",
        sample_canonical_tree "leanbun-project-output-tree-v1")) := by
  have hbinding : sample_readings.binding = some sample_binding := rfl
  have hattestation : sample_readings.attestation = some sample_attestation := rfl
  unfold ReuseReadings.snapshot
  rw [hbinding, hattestation]
  dsimp only
  rw [sample_selected]
  rfl

/-- What the transaction finds. -/
def sample_verification : Verification where
  preflight := ⟨true, some ⟨sample_sha, 0⟩⟩
  bindingStable := true
  attestationStable := true
  projectProtectedRecordsStable := true
  snapshot := snapshot_of (stored_record [] sample_id sample_build_record) sample_evidence
    (sample_canonical_tree "leanbun-project-input-tree-v1",
      sample_canonical_tree "leanbun-project-output-tree-v1")

theorem sample_verdict : sample_readings.verdict sample_environment sample_binding
    sample_attestation [] sample_records = .ok sample_verification := by
  have hpreflight : sample_readings.preflight = .ok ⟨true, some ⟨sample_sha, 0⟩⟩ := rfl
  have hafter : sample_readings.projectAfter = .ok [] := rfl
  have hbinding : sample_readings.binding = some sample_binding := rfl
  have hattestation : sample_readings.attestation = some sample_attestation := rfl
  unfold ReuseReadings.verdict
  rw [sample_snapshot, hpreflight, hafter, hbinding, hattestation]
  simp only [Option.any_some, decide_true]
  rfl

theorem sample_reusable : (sample_verification.reusable false).isSome = true := by decide

/-- The record with which the transaction ends. -/
theorem sample_reuse_readable : ReadableRecord sample_environment.date_parse
    ⟨some (sample_readings.closed sample_binding sample_attestation [] (.ok sample_verification)),
      true⟩
    (sample_readings.closed sample_binding sample_attestation [] (.ok sample_verification)) := by
  refine readable_record ?_ (by decide) (by decide)
  unfold valid_record
  rw [Bool.and_eq_true]
  exact ⟨sample_reuse_identity_valid, by decide⟩

/-- **The sample transaction** reuses the build. -/
theorem sample_reuse_reported : ∃ report d, sample_reuse.1 = .ok report ∧
    report.status = .reused ∧ (sample_reuse.2.executions sample_reuse_id).record =
      some ⟨some d, true⟩ ∧ d.status = .terminal .reused := by
  obtain ⟨t, hrun, hconcluded⟩ := transaction_run sample_unobstructed sample_list sample_verdict
    sample_reuse_readable
  have hreuse : sample_reuse = (_, t) := hrun
  rw [hreuse]
  exact ⟨_, _, rfl, (ending_reused (.ok sample_verification)).mpr
    ⟨sample_verification, rfl, sample_reusable⟩, hconcluded.record, by decide⟩

end LeanBun.Reuse
